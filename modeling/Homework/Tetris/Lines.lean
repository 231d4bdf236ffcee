import Homework.Shared.CInt
import Homework.Tetris.Arena

/-!
# Clearing lines

`check_lines` goes up from the bottom row. A filled row is overwritten by the one above it,
that by the next, and so on to the top, and the same row is then looked at again. All in
all the rows that are not filled sink to the bottom in their order.
-/

namespace Homework.Tetris

set_option autoImplicit false

def isLine (arena : Arena) (y : Int) : List Int → Option Bool
  | [] => some true
  | x :: xs => do
    if (← readArena arena x y) = 0 then some false else isLine arena y xs

def copyRow (yy : Int) : List Int → Arena → Option Arena
  | [], arena => some arena
  | xx :: xs, arena => do
    copyRow yy xs (← writeArena arena xx yy (← readArena arena xx (yy - 1)))

/-- The rows from `yy` up to 1, each overwritten by the one above it. -/
def shiftRows : Nat → Arena → Option Arena
  | 0, arena => some arena
  | yy + 1, arena => do shiftRows yy (← copyRow (yy + 1 : Nat) columns arena)

def clearTop : List Int → Arena → Option Arena
  | [], arena => some arena
  | xx :: xs, arena => do clearTop xs (← writeArena arena xx 0 0)

def removeLine (arena : Arena) (y : Int) : Option Arena := do
  clearTop columns (← shiftRows y.toNat arena)

/-! ## Rows after a removal -/

theorem isLine_eq {arena : Arena} {y : Int} (hy : 0 ≤ y ∧ y < arenaHeight) {xs : List Int}
    (hxs : ∀ x ∈ xs, 0 ≤ x ∧ x < arenaWidth) :
    isLine arena y xs = some (decide (0 ∉ xs.map fun x => arena x y)) := by
  induction xs with
  | nil => rfl
  | cons x xs ih =>
    have hread := readArena_eq ⟨hxs x List.mem_cons_self, hy⟩ arena
    have htail := ih fun x' hx' => hxs x' (List.mem_cons_of_mem x hx')
    by_cases hx : arena x y = 0
    · simp [isLine, hread, hx]
    · simp [isLine, hread, hx, htail, eq_comm]

theorem copyRow_eq {yy : Int} (hyy : 1 ≤ yy ∧ yy < arenaHeight) {xs : List Int}
    (hxs : ∀ x ∈ xs, 0 ≤ x ∧ x < arenaWidth) (arena : Arena) :
    copyRow yy xs arena =
      some fun x y => if x ∈ xs ∧ y = yy then arena x (yy - 1) else arena x y := by
  induction xs generalizing arena with
  | nil => simp [copyRow]
  | cons xx xs ih =>
    have hxx := hxs xx List.mem_cons_self
    have hread := readArena_eq (x := xx) (y := yy - 1) ⟨hxx, by omega⟩ arena
    have hwrite := writeArena_eq (x := xx) (y := yy) ⟨hxx, by omega⟩ arena (arena xx (yy - 1))
    rw [copyRow, hread, Option.bind_eq_bind, Option.bind_some, hwrite, Option.bind_eq_bind,
      Option.bind_some, ih fun x hx => hxs x (List.mem_cons_of_mem xx hx)]
    congr 1
    funext x y
    simp only [setCell, List.mem_cons]
    split_ifs <;> grind

theorem shiftRows_eq (n : Nat) (hn : n < 20) (arena : Arena) :
    ∃ arena', shiftRows n arena = some arena' ∧ ∀ x, 0 ≤ x → x < arenaWidth → ∀ y,
      arena' x y = if 1 ≤ y ∧ y ≤ n then arena x (y - 1) else arena x y := by
  induction n generalizing arena with
  | zero =>
    refine ⟨arena, rfl, fun x _ _ y => ?_⟩
    rw [if_neg (by omega)]
  | succ n ih =>
    have hyy : 1 ≤ ((n + 1 : Nat) : Int) ∧ ((n + 1 : Nat) : Int) < arenaHeight := by
      unfold arenaHeight
      omega
    have hcopy := copyRow_eq hyy (fun x hx => mem_columns.mp hx) arena
    obtain ⟨arena', hshift, hcells⟩ := ih (by omega)
      (fun x y =>
        if x ∈ columns ∧ y = (n + 1 : Nat) then arena x ((n + 1 : Nat) - 1) else arena x y)
    refine ⟨arena', by rw [shiftRows, hcopy]; exact hshift, fun x hx₀ hx y => ?_⟩
    have hmem : x ∈ columns := mem_columns.mpr ⟨hx₀, hx⟩
    rw [hcells x hx₀ hx y]
    simp only [hmem, true_and]
    split_ifs <;> first | rfl | omega | (congr 1; omega)

theorem clearTop_eq {xs : List Int} (hxs : ∀ x ∈ xs, 0 ≤ x ∧ x < arenaWidth) (arena : Arena) :
    clearTop xs arena = some fun x y => if x ∈ xs ∧ y = 0 then 0 else arena x y := by
  induction xs generalizing arena with
  | nil => simp [clearTop]
  | cons xx xs ih =>
    have hxx := hxs xx List.mem_cons_self
    have hwrite := writeArena_eq (x := xx) (y := 0) ⟨hxx, by unfold arenaHeight; omega⟩ arena 0
    rw [clearTop, hwrite, Option.bind_eq_bind, Option.bind_some,
      ih fun x hx => hxs x (List.mem_cons_of_mem xx hx)]
    congr 1
    funext x y
    simp only [setCell, List.mem_cons]
    split_ifs <;> grind

theorem removeLine_eq {y : Nat} (hy : y < 20) (arena : Arena) :
    ∃ arena', removeLine arena y = some arena' ∧
      rows arena' = emptyRow :: (rows arena).eraseIdx y := by
  obtain ⟨shifted, hshift, hcells⟩ := shiftRows_eq y hy arena
  refine ⟨_, by rw [removeLine, Int.toNat_natCast, hshift, Option.bind_eq_bind, Option.bind_some,
    clearTop_eq fun x hx => mem_columns.mp hx], ?_⟩
  apply List.ext_getElem
  · simp [List.length_eraseIdx, hy]
  · intro i hi hi'
    rw [length_rows] at hi
    rw [getElem_rows]
    cases i with
    | zero =>
      have hzero : rowOf (fun x y => if x ∈ columns ∧ y = 0 then 0 else shifted x y) 0 =
          columns.map fun _ => 0 := by
        apply List.map_congr_left
        intro x hx
        simp [hx]
      exact hzero
    | succ i =>
      rw [List.getElem_cons_succ, List.getElem_eraseIdx]
      split
      · rw [getElem_rows]
        apply rowOf_congr
        intro x hx₀ hx
        rw [if_neg (by omega), hcells x hx₀ hx, if_pos (by omega)]
        congr 1
        omega
      · rw [getElem_rows]
        apply rowOf_congr
        intro x hx₀ hx
        rw [if_neg (by omega), hcells x hx₀ hx, if_neg (by omega)]

def fullRows (arena : Arena) : Nat := (rows arena).countP fun row => decide (IsFull row)

theorem rowOf_removeLine_below {arena arena' : Arena} {y : Nat} (hy : y < 20)
    (hremove : removeLine arena y = some arena') {y' : Int} (hlt : y < y')
    (hle : y' < arenaHeight) : rowOf arena' y' = rowOf arena y' := by
  obtain ⟨removed, hremoved, hrows⟩ := removeLine_eq hy arena
  obtain rfl : removed = arena' := Option.some.inj (hremoved.symm.trans hremove)
  obtain ⟨n, rfl⟩ := Int.eq_ofNat_of_zero_le (by omega : 0 ≤ y')
  obtain ⟨m, rfl⟩ : ∃ m, n = m + 1 := ⟨n - 1, by omega⟩
  unfold arenaHeight at hle
  have hnew : (rows removed)[m + 1]? = some (rowOf removed (m + 1 : Nat)) := by
    rw [List.getElem?_eq_getElem (by rw [length_rows]; omega), getElem_rows]
  have hold : (rows arena)[m + 1]? = some (rowOf arena (m + 1 : Nat)) := by
    rw [List.getElem?_eq_getElem (by rw [length_rows]; omega), getElem_rows]
  rw [hrows, List.getElem?_cons_succ, List.getElem?_eraseIdx_of_ge (by omega), hold] at hnew
  exact (Option.some.inj hnew).symm

theorem removeLine_of_full {arena arena' : Arena} {y : Nat} (hy : y < 20)
    (hfull : IsFull (rowOf arena y)) (hremove : removeLine arena y = some arena') :
    fullRows arena = fullRows arena' + 1 ∧
      (rows arena').filter (fun row => decide (¬ IsFull row)) =
        emptyRow :: (rows arena).filter (fun row => decide (¬ IsFull row)) := by
  obtain ⟨removed, hremoved, hrows⟩ := removeLine_eq hy arena
  obtain rfl : removed = arena' := Option.some.inj (hremoved.symm.trans hremove)
  have hlen : y < (rows arena).length := by rwa [length_rows]
  have hsplit := List.take_append_drop y (rows arena)
  rw [List.drop_eq_getElem_cons hlen, getElem_rows] at hsplit
  rw [List.eraseIdx_eq_take_drop_succ] at hrows
  constructor
  · rw [fullRows, fullRows, hrows, ← hsplit]
    simp only [List.countP_append, List.countP_cons, hfull, not_isFull_emptyRow, decide_true,
      decide_false, Bool.false_eq_true, if_true, if_false]
    rw [hsplit]
    omega
  · rw [hrows]
    conv_rhs => rw [← hsplit]
    simp only [List.filter_cons, List.filter_append, hfull, not_isFull_emptyRow,
      not_false_eq_true, not_true_eq_false, decide_true, decide_false, Bool.false_eq_true,
      if_true, if_false]

theorem inArena_of_isLine {arena : Arena} {y : Int} (h : isLine arena y columns = some true) :
    InArena 0 y := by
  by_contra hout
  have hread : readArena arena 0 y = none := if_neg hout
  have hcolumns : columns = 0 :: columns.tail := by decide
  rw [hcolumns, isLine, hread] at h
  cases h

theorem isFull_of_isLine {arena : Arena} {y : Int} (h : isLine arena y columns = some true) :
    IsFull (rowOf arena y) := by
  have hy := (inArena_of_isLine h).2
  rw [isLine_eq hy fun x hx => mem_columns.mp hx] at h
  exact of_decide_eq_true (Option.some.inj h)

theorem fullRows_of_isLine {arena arena' : Arena} {y : Int}
    (h : isLine arena y columns = some true) (hremove : removeLine arena y = some arena') :
    fullRows arena = fullRows arena' + 1 := by
  obtain ⟨h₀, h₁⟩ := (inArena_of_isLine h).2
  obtain ⟨n, rfl⟩ := Int.eq_ofNat_of_zero_le h₀
  exact (removeLine_of_full (by unfold arenaHeight at h₁; omega) (isFull_of_isLine h) hremove).1

def checkLinesLoop (arena : Arena) (y count : Int) : Option (Arena × Int) :=
  if y < 0 then some (arena, count)
  else
    match hline : isLine arena y columns with
    | none => none
    | some false => checkLinesLoop arena (y - 1) count
    | some true =>
      match hremove : removeLine arena y with
      | none => none
      -- `++y` undoes the `--y` of the loop: the row that came down is looked at next
      | some arena' => checkLinesLoop arena' y (count + 1)
termination_by (y + 1).toNat + fullRows arena
decreasing_by
  · omega
  · have := fullRows_of_isLine hline hremove
    omega

def checkLines (arena : Arena) (score : Int) : Option (Arena × Int) := do
  let (arena, count) ← checkLinesLoop arena (arenaHeight - 1) 0
  some (arena, if count > 0 then intAdd score (count * 100) else score)

/-- All rows of `arena` that are not filled, in their order, below as many empty rows as
there were filled ones. -/
def settled (arena : Arena) : List (List Int) :=
  List.replicate (fullRows arena) emptyRow ++ (rows arena).filter fun row => decide (¬ IsFull row)

theorem settled_of_full {arena arena' : Arena} {y : Nat} (hy : y < 20)
    (hfull : IsFull (rowOf arena y)) (hremove : removeLine arena y = some arena') :
    settled arena' = settled arena := by
  obtain ⟨hcount, hfilter⟩ := removeLine_of_full hy hfull hremove
  rw [settled, hfilter, settled, hcount, List.replicate_succ', List.append_assoc,
    List.singleton_append]

theorem settled_of_none_full {arena : Arena}
    (h : ∀ y, 0 ≤ y → y < arenaHeight → ¬ IsFull (rowOf arena y)) :
    fullRows arena = 0 ∧ settled arena = rows arena := by
  have hrows : ∀ row ∈ rows arena, ¬ IsFull row := by
    intro row hrow
    obtain ⟨y, hy, rfl⟩ := mem_rows.mp hrow
    exact h y hy.1 hy.2
  have hzero : fullRows arena = 0 := by
    rw [fullRows, List.countP_eq_zero]
    intro row hrow
    simp [hrows row hrow]
  refine ⟨hzero, ?_⟩
  rw [settled, hzero, List.replicate_zero, List.nil_append, List.filter_eq_self]
  intro row hrow
  simp [hrows row hrow]

theorem checkLinesLoop_eq (arena : Arena) (y count : Int) (hy : y < arenaHeight)
    (hbelow : ∀ y', y < y' → y' < arenaHeight → ¬ IsFull (rowOf arena y')) :
    ∃ arena', checkLinesLoop arena y count = some (arena', count + fullRows arena) ∧
      rows arena' = settled arena := by
  fun_induction checkLinesLoop arena y count with
  | case1 arena y count hneg =>
    have hclean : ∀ y', 0 ≤ y' → y' < arenaHeight → ¬ IsFull (rowOf arena y') := fun y' h₀ h₁ =>
      hbelow y' (by omega) h₁
    obtain ⟨hzero, hsettled⟩ := settled_of_none_full hclean
    exact ⟨arena, by rw [hzero]; simp, hsettled.symm⟩
  | case2 arena y count hpos hline =>
    rw [isLine_eq ⟨by omega, hy⟩ fun x hx => mem_columns.mp hx] at hline
    cases hline
  | case3 arena y count hpos hline ih =>
    apply ih (by omega)
    intro y' hlt hle
    by_cases hyy : y' = y
    · subst y'
      rw [isLine_eq ⟨by omega, hy⟩ fun x hx => mem_columns.mp hx] at hline
      exact of_decide_eq_false (Option.some.inj hline)
    · exact hbelow y' (by omega) hle
  | case4 arena y count hpos hline hremove =>
    obtain ⟨n, rfl⟩ := Int.eq_ofNat_of_zero_le (by omega : 0 ≤ y)
    obtain ⟨arena', hsome, -⟩ := removeLine_eq (y := n) (by unfold arenaHeight at hy; omega) arena
    rw [hremove] at hsome
    cases hsome
  | case5 arena y count hpos hline arena' hremove ih =>
    obtain ⟨n, rfl⟩ := Int.eq_ofNat_of_zero_le (by omega : 0 ≤ y)
    have hn : n < 20 := by unfold arenaHeight at hy; omega
    have hfull := isFull_of_isLine hline
    have hsettled := settled_of_full hn hfull hremove
    have hcount := (removeLine_of_full hn hfull hremove).1
    have hstill : ∀ y', (n : Int) < y' → y' < arenaHeight → ¬ IsFull (rowOf arena' y') := by
      intro y' hlt hle
      rw [rowOf_removeLine_below hn hremove hlt hle]
      exact hbelow y' hlt hle
    obtain ⟨final, hloop, hrows⟩ := ih hy hstill
    refine ⟨final, ?_, hrows.trans hsettled⟩
    rw [hloop, hcount]
    congr 2
    omega

/-- `check_lines` ends within the field, drops exactly the filled rows, and pays 100 for each. -/
theorem checkLines_eq (arena : Arena) (score : Int) :
    ∃ arena', checkLines arena score =
        some (arena', if 0 < fullRows arena then intAdd score (fullRows arena * 100) else score) ∧
      rows arena' = settled arena := by
  obtain ⟨arena', hloop, hrows⟩ := checkLinesLoop_eq arena (arenaHeight - 1) 0 (by omega)
    fun y' hlt hle => by omega
  refine ⟨arena', ?_, hrows⟩
  rw [checkLines, hloop]
  simp only [Option.bind_eq_bind, Option.bind_some, Int.zero_add, gt_iff_lt, Int.natCast_pos]

theorem forall_mem_settled {arena : Arena} {P : Int → Prop} (hzero : P 0)
    (h : ∀ x y, InArena x y → P (arena x y)) : ∀ row ∈ settled arena, ∀ v ∈ row, P v := by
  intro row hrow v hv
  rcases List.mem_append.mp hrow with hempty | hkept
  · rw [List.eq_of_mem_replicate hempty] at hv
    exact List.eq_of_mem_replicate hv ▸ hzero
  · exact forall_cells_iff.mp h row (List.mem_filter.mp hkept).1 v hv

theorem not_isFull_of_mem_settled {arena : Arena} {row : List Int} (h : row ∈ settled arena) :
    ¬ IsFull row := by
  rcases List.mem_append.mp h with hempty | hkept
  · rw [List.eq_of_mem_replicate hempty]
    exact not_isFull_emptyRow
  · exact of_decide_eq_true (List.mem_filter.mp hkept).2

/-- `check_lines` ends, keeps exactly the rows that are not filled, in their order, below as
many empty ones as there were filled rows, and pays 100 for each of these, as long as the new
score is an `int`. -/
theorem check_lines_keeps_rows (arena : Arena) {score : Int} (hscore : InInt score)
    (hfits : score + 100 * fullRows arena ≤ intMax) :
    ∃ arena', checkLines arena score = some (arena', score + 100 * fullRows arena) ∧
      rows arena' = List.replicate (fullRows arena) emptyRow ++
        (rows arena).filter fun row => decide (¬ IsFull row) := by
  obtain ⟨arena', hlines, hrows⟩ := checkLines_eq arena score
  refine ⟨arena', ?_, hrows⟩
  obtain ⟨hlo, -⟩ := hscore
  unfold intMax at hfits
  rw [hlines]
  congr 2
  split
  · rw [intAdd_eq ⟨by omega, by omega⟩, Int.mul_comm]
  · omega

def bottomRowOnly : Arena := fun _ y => if y = 19 then 1 else 0

theorem check_lines_keeps_rows_of_bottom_row :
    ∃ arena', checkLines bottomRowOnly 300 =
        some (arena', (300 : Int) + 100 * fullRows bottomRowOnly) ∧
      rows arena' = List.replicate (fullRows bottomRowOnly) emptyRow ++
        (rows bottomRowOnly).filter fun row => decide (¬ IsFull row) :=
  check_lines_keeps_rows bottomRowOnly (by decide) (by decide)

/-- The largest score that is a multiple of 100. -/
def largestScore : Int := 2147483600

/-- At the largest score a filled row makes it negative. -/
theorem score_wraps_at_the_largest :
    ¬ ∀ arena score, Binary arena → InInt score →
      ∃ arena', checkLines arena score = some (arena', score + 100 * fullRows arena) ∧
        rows arena' = List.replicate (fullRows arena) emptyRow ++
          (rows arena).filter fun row => decide (¬ IsFull row) := by
  intro h
  have hbinary : Binary bottomRowOnly := by
    intro x y _
    unfold bottomRowOnly
    split
    · exact Or.inr rfl
    · exact Or.inl rfl
  obtain ⟨arena', hlines, -⟩ := h bottomRowOnly largestScore hbinary (by decide)
  obtain ⟨arena'', hlines', -⟩ := checkLines_eq bottomRowOnly largestScore
  rw [hlines'] at hlines
  have hscore := (Prod.mk.inj (Option.some.inj hlines)).2
  exact absurd hscore (by decide)

end Homework.Tetris
