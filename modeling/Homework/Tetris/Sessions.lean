import Homework.Tetris.Persistence
import Homework.Tetris.Ranking
import Homework.Tetris.Safety

/-!
# One game after another

`hw17-tetris/main.c`: every start of the program reads the table, plays a game and writes the
table back. Between two starts there is only the file, which the menu of `hw17-tetris/run.sh`
may delete.
-/

namespace Homework.Tetris

set_option autoImplicit false

structure Session where
  input : List UInt8
  rand : Nat
  frames : List Frame
  /-- Whether `scoreboard_save` can open its file. -/
  saves : Bool

inductive Choice where
  | play (session : Session)
  | remove

def main (file : Option (List UInt8)) (session : Session) : Option (Option (List UInt8)) := do
  let t ← scoreboardInit atoi file
  let g ← runGame session.rand session.frames
  -- `run_game` does not return before
  if g.isGameOver then
    let t := scoreboardInsert t (readName session.input) g.score
    some (if session.saves then some (scoreboardSave t) else file)
  else none

def choose (file : Option (List UInt8)) : Choice → Option (Option (List UInt8))
  | .play session => main file session
  | .remove => some none

def Session.Ends (session : Session) : Prop :=
  (runGame session.rand session.frames).map Game.isGameOver = some true

instance (session : Session) : Decidable session.Ends := inferInstanceAs (Decidable (_ = _))

def Session.win (session : Session) : Win where
  name := readName session.input
  score := ((runGame session.rand session.frames).map Game.score).getD 0

/-- What has been written since the file was last deleted, `wins` being written before. -/
def kept (wins : List Win) : List Choice → List Win
  | [] => wins
  | .play session :: choices =>
    kept (if session.saves then wins ++ [session.win] else wins) choices
  | .remove :: choices => kept [] choices

/-! ## The score -/

theorem inInt_intAdd (a b : Int) : InInt (intAdd a b) := by
  unfold intAdd
  have hlo := Int.le_bmod (x := a + b) (m := 2 ^ 32) (by decide)
  have hhi := Int.bmod_lt (x := a + b) (m := 2 ^ 32) (by decide)
  constructor
  · omega
  · omega

/-- The score is what an `int` can hold, also where it has wrapped around. -/
def ScoreInInt (s : Option Game) : Prop := ∃ g, s = some g ∧ Safe g ∧ InInt g.score

theorem step_scoreInInt (s : Option Game) (e : Event) (h : ScoreInInt s) :
    ScoreInInt (step s e) := by
  obtain ⟨g, rfl, hsafe, hscore⟩ := h
  rw [step, Option.bind_some]
  unfold Game.step
  split
  · exact ⟨g, rfl, hsafe, hscore⟩
  · cases e with
    | key key =>
      obtain ⟨g', hg', hsafe'⟩ := handleKey_safe hsafe key
      exact ⟨g', hg', hsafe', (handleKey_keeps hg').2.1 ▸ hscore⟩
    | tick rand =>
      obtain ⟨g', hg', hsafe'⟩ := tick_safe hsafe rand
      refine ⟨g', hg', hsafe', ?_⟩
      rw [tick, moveDown_eq hsafe] at hg'
      by_cases hfits : Game.Fits { g with currY := g.currY + 1 }
      · rw [if_pos hfits] at hg'
        cases hg'
        exact hscore
      · obtain ⟨placed, hplaced, hbinary⟩ := placeToArena_binary hsafe
        obtain ⟨arena', hlines, hrows⟩ := checkLines_eq placed g.score
        obtain ⟨arena'', score, hlines', hbinary', hno⟩ := checkLines_safe hbinary g.score
        obtain ⟨g'', hg'', -, -, hsame⟩ := generateTetromino_safe
          (g := { g with arena := arena'', score := score }) hbinary' hno rand
        rw [if_neg hfits] at hg'
        simp only [Option.bind_eq_bind, Option.bind_some, Bool.false_eq_true, if_false, hplaced,
          hlines', hg''] at hg'
        cases hg'
        rw [hlines'] at hlines
        cases hlines
        rw [hsame]
        dsimp only
        split
        · exact inInt_intAdd _ _
        · exact hscore

theorem Session.inInt_win (session : Session) : InInt session.win.score := by
  unfold Session.win
  obtain ⟨g, hg, hsafe, -, hzero⟩ := start_eq session.rand
  have hstart : ScoreInInt (start session.rand) := ⟨g, hg, hsafe, by rw [hzero]; decide⟩
  obtain ⟨g', hg', -, hscore⟩ := run_invariant_all ScoreInInt step_scoreInInt hstart
    (session.frames.flatMap Frame.events)
  rw [runGame_eq_run, hg']
  exact hscore

/-! ## The table -/

theorem filled_insertWin {P : List UInt8 → Prop} {t : Scoreboard} (ht : Filled P t) {win : Win}
    (hname : P win.name) (hscore : InInt win.score) : Filled P (insertWin t win) := by
  unfold insertWin
  cases hplace : findPlace t win.score with
  | none =>
    unfold scoreboardInsert
    rw [hplace]
    exact ht
  | some place =>
    -- a negative score finds no place
    have hnonneg := Int.le_trans (ht.scores place).1 (findPlace_some hplace).1
    have hfilled : ∀ i, (∃ name, (t.entry i).1 = some name ∧ P name) ∧ IsScore (t.entry i).2 :=
      fun i => ⟨ht.names i, ht.scores i⟩
    have hall : ∀ i, (∃ name, ((scoreboardInsert t win.name win.score).entry i).1 = some name ∧
        P name) ∧ IsScore ((scoreboardInsert t win.name win.score).entry i).2 := by
      intro i
      rw [entry_scoreboardInsert hplace]
      split
      · exact hfilled i
      · split
        · exact ⟨⟨win.name, rfl, hname⟩, hnonneg, hscore⟩
        · exact hfilled _
    exact ⟨fun i => (hall i).1, fun i => (hall i).2⟩

theorem sorted_defaults : Sorted defaults := by
  intro i j hij
  have hi : defaults.scores i = (9 - (i.val : Int)) * 100 := congrArg Prod.snd (entry_defaults i)
  have hj : defaults.scores j = (9 - (j.val : Int)) * 100 := congrArg Prod.snd (entry_defaults j)
  rw [hi, hj]
  omega

/-! ## Sessions -/

/-- Reading the file gives the table, in which every name is whole. -/
structure Holds (file : Option (List UInt8)) (t : Scoreboard) : Prop where
  loads : scoreboardInit atoi file = some t
  filled : Filled IsField t

theorem holds_none : Holds none (([] : List Win).foldl insertWin defaults) := by
  rw [List.foldl_nil]
  exact ⟨rfl, filled_defaults isField_player⟩

theorem holds_scoreboardSave {t : Scoreboard} (ht : Filled IsField t) :
    Holds (some (scoreboardSave t)) t :=
  ⟨scoreboardInit_scoreboardSave isAtoi_atoi ht, ht⟩

theorem isField_readName {input : List UInt8} (htab : 9 ∉ readName input) :
    IsField (readName input) := by
  obtain ⟨hne, hnewline, hnul⟩ := prompted_spec ⟨input, rfl⟩
  exact ⟨hne, htab, hnewline, hnul⟩

theorem main_spec {file : Option (List UInt8)} {t : Scoreboard} (h : Holds file t)
    {session : Session} (hends : session.Ends) (htab : 9 ∉ readName session.input) :
    ∃ file', main file session = some file' ∧
      Holds file' (if session.saves then insertWin t session.win else t) := by
  obtain ⟨g, hg, hover⟩ := Option.map_eq_some_iff.mp hends
  have hwin : session.win = ⟨readName session.input, g.score⟩ := by
    rw [Session.win, hg]
    rfl
  have hfilled : Filled IsField (insertWin t session.win) :=
    filled_insertWin h.filled (isField_readName htab) session.inInt_win
  unfold main
  rw [h.loads, hg]
  simp only [Option.bind_eq_bind, Option.bind_some]
  rw [if_pos hover]
  refine ⟨_, rfl, ?_⟩
  split
  · rw [hwin] at hfilled ⊢
    exact holds_scoreboardSave hfilled
  · exact h

theorem foldlM_choose_spec {file : Option (List UInt8)} {wins : List Win}
    (h : Holds file (wins.foldl insertWin defaults)) {choices : List Choice}
    (hends : ∀ session, .play session ∈ choices → session.Ends ∧ 9 ∉ readName session.input) :
    ∃ file', choices.foldlM choose file = some file' ∧
      Holds file' ((kept wins choices).foldl insertWin defaults) := by
  induction choices generalizing file wins with
  | nil => exact ⟨file, rfl, h⟩
  | cons choice choices ih =>
    have hrest : ∀ session, .play session ∈ choices →
        session.Ends ∧ 9 ∉ readName session.input :=
      fun session hmem => hends session (List.mem_cons_of_mem choice hmem)
    rw [List.foldlM_cons]
    cases choice with
    | remove => exact @ih none [] holds_none hrest
    | play session =>
      obtain ⟨hover, htab⟩ := hends session List.mem_cons_self
      obtain ⟨file', hmain, hfile'⟩ := main_spec h hover htab
      have hkept : Holds file'
          ((if session.saves then wins ++ [session.win] else wins).foldl insertWin defaults) := by
        split at hfile'
        · rename_i hsaves
          rw [if_pos hsaves, List.foldl_append, List.foldl_cons, List.foldl_nil]
          exact hfile'
        · rename_i hsaves
          rw [if_neg hsaves]
          exact hfile'
      rw [choose, hmain]
      exact ih hkept hrest

/-- Whatever is played, with names without a tab, and however often the file is deleted: it holds
the ten best of the default table and of all that was written since the last deletion, and the
next start reads them from it. -/
theorem file_keeps_ten_best (choices : List Choice)
    (hends : ∀ session, .play session ∈ choices → session.Ends ∧ 9 ∉ readName session.input) :
    ∃ file t, choices.foldlM choose none = some file ∧ scoreboardInit atoi file = some t ∧
      Sorted t ∧ ∃ ranked : List (Entry × Nat),
        ranked.Perm (offered defaults (kept [] choices)).zipIdx ∧ ranked.Pairwise RanksBefore ∧
          entries t = (ranked.map Prod.fst).take 10 := by
  obtain ⟨file, hfile, hholds⟩ := @foldlM_choose_spec none [] holds_none choices hends
  obtain ⟨ranked, hperm, hranked, hmap⟩ :=
    exists_laterFirst (r := AtLeast) (offered defaults (kept [] choices))
  refine ⟨file, _, hfile, hholds.loads, ?_, ranked, hperm,
    hranked.imp ranksBefore_of_laterFirst, ?_⟩
  · exact List.foldlRecOn (kept [] choices) insertWin sorted_defaults
      fun t ht win _ => insertWin_sorted ht win
  · rw [entries_foldl_insertWin, hmap, offered, insertAll_append,
      insertAll_reverse ((pairwise_entries_iff defaults).mpr sorted_defaults)]

/-- Five long pieces, one above the other. -/
def tower : List Frame := [16, 12, 8, 4, 0].map fun n => ⟨119 :: List.replicate n 115, some 0⟩

def annThenBob : List Choice :=
  [.play ⟨ascii "ann\n", 0, tower, true⟩, .remove, .play ⟨ascii "bob\n", 0, tower, true⟩]

theorem tower_ends : (runGame 0 tower).map Game.isGameOver = some true := by decide +kernel

theorem file_keeps_ten_best_of_ann_and_bob :
    ∃ file t, annThenBob.foldlM choose none = some file ∧ scoreboardInit atoi file = some t ∧
      Sorted t ∧ ∃ ranked : List (Entry × Nat),
        ranked.Perm (offered defaults (kept [] annThenBob)).zipIdx ∧
          ranked.Pairwise RanksBefore ∧ entries t = (ranked.map Prod.fst).take 10 := by
  apply file_keeps_ten_best annThenBob
  intro session hmem
  rcases List.mem_cons.mp hmem with h | hmem
  · cases h
    exact ⟨tower_ends, by decide⟩
  · rcases List.mem_cons.mp hmem with h | hmem
    · cases h
    · cases List.mem_singleton.mp hmem
      exact ⟨tower_ends, by decide⟩

end Homework.Tetris
