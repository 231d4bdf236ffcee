import Mathlib.Data.List.FinRange
import Homework.Tetris.Scoreboard

/-!
# The scoreboard file

In a table that has been loaded every name is one that the tokeniser finds whole, and every
score is printed without a sign. Such a table is read back as it was saved.
-/

namespace Homework.Tetris

set_option autoImplicit false

/-- A name that `strtok` finds whole between the tabs of a line. -/
structure IsField (name : List UInt8) : Prop where
  ne_nil : name ≠ []
  noTab : 9 ∉ name
  noNewline : newline ∉ name
  noNul : 0 ∉ name

def IsScore (score : Int) : Prop := 0 ≤ score ∧ InInt score

instance (score : Int) : Decidable (IsScore score) := inferInstanceAs (Decidable (_ ∧ _))

/-- What `main` can get from the player. -/
def Prompted (name : List UInt8) : Prop := ∃ input, readName input = name

structure Filled (P : List UInt8 → Prop) (t : Scoreboard) : Prop where
  names : ∀ i, ∃ name, t.names i = some name ∧ P name
  scores : ∀ i, IsScore (t.scores i)

theorem isField_player : IsField player where
  ne_nil := by decide
  noTab := by decide
  noNewline := by decide
  noNul := by decide

theorem filled_set {P : List UInt8 → Prop} {t : Scoreboard} (ht : Filled P t) (i : Fin 10)
    {name : List UInt8} {score : Int} (hname : P name) (hscore : IsScore score) :
    Filled P (t.set i (some name) score) where
  names j := by
    by_cases hj : j = i
    · exact ⟨name, by simp [Scoreboard.set, hj], hname⟩
    · obtain ⟨old, hold, hfield⟩ := ht.names j
      exact ⟨old, by simp [Scoreboard.set, hj, hold], hfield⟩
  scores j := by
    by_cases hj : j = i
    · simpa [Scoreboard.set, hj] using hscore
    · simpa [Scoreboard.set, hj] using ht.scores j

/-! ## The table before loading -/

theorem findPlace_of_first {t : Scoreboard} {score : Int} (h : t.scores 0 ≤ score) :
    findPlace t score = some 0 := by
  unfold findPlace
  rw [List.finRange_succ, List.find?_cons_of_pos (by simpa using h)]

theorem entry_defaults_loop {n : Nat} (hn : n ≤ 10) (i : Fin 10) :
    ((List.range n).foldl (fun t (i : Nat) => scoreboardInsert t player (i * 100)) blank).entry i =
      if i.val < n then (some player, ((n : Int) - 1 - i.val) * 100) else (none, -1) := by
  induction n generalizing i with
  | zero => simp [Scoreboard.entry, blank]
  | succ n ih =>
    have ih := ih (by omega)
    rw [List.range_succ, List.foldl_append, List.foldl_cons, List.foldl_nil]
    rw [entry_scoreboardInsert (findPlace_of_first ?_)]
    · rw [if_neg (by omega)]
      by_cases hi : i = 0
      · simp [hi]
      · rw [if_neg hi, ih]
        dsimp only
        have hcast : ((i.val - 1 : Nat) : Int) = i.val - 1 := by omega
        by_cases hlt : i.val < n + 1
        · rw [if_pos hlt, if_pos (by omega)]
          congr 2
          omega
        · rw [if_neg hlt, if_neg (by omega)]
    · have hfirst := congrArg Prod.snd (ih 0)
      simp only [Scoreboard.entry] at hfirst
      rw [hfirst]
      split <;> dsimp only <;> omega

theorem entry_defaults (i : Fin 10) :
    defaults.entry i = (some player, (9 - (i.val : Int)) * 100) := by
  unfold defaults
  rw [entry_defaults_loop (by omega), if_pos i.isLt]
  rfl

theorem filled_defaults {P : List UInt8 → Prop} (hplayer : P player) : Filled P defaults where
  names i := ⟨player, congrArg Prod.fst (entry_defaults i), hplayer⟩
  scores i := by
    have hscore : defaults.scores i = (9 - (i.val : Int)) * 100 :=
      congrArg Prod.snd (entry_defaults i)
    rw [hscore]
    exact ⟨by omega, by omega, by omega⟩

/-! ## What can be loaded -/

section Load

variable {atoi : List UInt8 → Int}

theorem getline_some {file line rest : List UInt8} (h : getline file = some (line, rest)) :
    newline ∉ line.dropLast := by
  unfold getline at h
  split at h
  · cases h
  · dsimp only at h
    cases h
    generalize hbody : file.takeWhile (fun b => b != newline) = body
    have hfile : file = body ++ file.dropWhile fun b => b != newline := by
      rw [← hbody, List.takeWhile_append_dropWhile]
    have hno : newline ∉ body := by
      intro hmem
      rw [← hbody] at hmem
      simpa using List.mem_takeWhile_imp hmem
    intro hmem
    rw [List.dropLast_eq_take, List.take_take] at hmem
    obtain ⟨k, hk, hmem⟩ : ∃ k ≤ body.length, newline ∈ file.take k :=
      ⟨_, by simp only [List.length_take]; omega, hmem⟩
    rw [hfile, List.take_append_of_le_length hk] at hmem
    exact hno (List.mem_of_mem_take hmem)

theorem parseLine_isField {file line rest name : List UInt8}
    (hline : getline file = some (line, rest)) (hname : (parseLine atoi line).name = some name)
    (hscore : 0 ≤ (parseLine atoi line).score) : IsField name := by
  unfold parseLine at hname hscore
  dsimp only at hname hscore
  generalize hfields : (strtok delim (cString line)).2 = fields at hname hscore
  have hsuffix : fields <:+ cString line := hfields ▸ strtok_suffix delim (cString line)
  obtain ⟨rest', htoken⟩ : ∃ rest', strtok delim fields = (some name, rest') :=
    ⟨_, Prod.ext hname rfl⟩
  rw [htoken] at hscore
  obtain ⟨hne, hdelim, tail, htail, hrest⟩ := strtok_some htoken
  -- without a third field the score would be negative
  have htailne : tail ≠ [] := by
    rintro rfl
    rw [hrest] at hscore
    simp [strtok_nil] at hscore
  obtain ⟨before, hbefore⟩ := htail.trans hsuffix
  obtain ⟨after, hafter⟩ := List.takeWhile_prefix (fun b => b != 0) (l := line)
  have hline' : line = before ++ name ++ (tail ++ after) := by
    rw [← hafter, ← cString, ← hbefore]
    simp only [List.append_assoc]
  refine ⟨hne, fun hmem => hdelim 9 hmem (by decide), fun hmem => ?_, fun hmem => ?_⟩
  · apply getline_some hline
    rw [hline', List.dropLast_append_of_ne_nil (by simp [htailne])]
    simp [hmem]
  · apply zero_not_mem_cString line
    rw [← hbefore]
    simp [hmem]

theorem parseLine_isScore (hatoi : IsAtoi atoi) {line : List UInt8}
    (hscore : 0 ≤ (parseLine atoi line).score) : IsScore (parseLine atoi line).score := by
  refine ⟨hscore, ?_⟩
  unfold parseLine
  dsimp only
  split
  · exact hatoi.inInt _
  · decide

theorem filled_storeLine (hatoi : IsAtoi atoi) {t t' : Scoreboard} {file line rest : List UInt8}
    (hline : getline file = some (line, rest)) (ht : Filled IsField t)
    (hstore : storeLine t (parseLine atoi line) = some t') : Filled IsField t' := by
  unfold storeLine at hstore
  split at hstore
  · rename_i hstored
    obtain ⟨-, hsome, hscore⟩ := hstored
    split at hstore
    · cases hstore
      obtain ⟨name, hname⟩ := Option.isSome_iff_exists.mp hsome
      rw [hname]
      exact filled_set ht _ (parseLine_isField hline hname hscore) (parseLine_isScore hatoi hscore)
    · cases hstore
  · cases hstore
    exact ht

theorem filled_loadLines (hatoi : IsAtoi atoi) {n : Nat} {t t' : Scoreboard} {file : List UInt8}
    (ht : Filled IsField t) (hload : loadLines atoi n file t = some t') : Filled IsField t' := by
  induction n generalizing file t with
  | zero =>
    cases hload
    exact ht
  | succ n ih =>
    unfold loadLines at hload
    split at hload
    · cases hload
      exact ht
    · rename_i line rest hline
      obtain ⟨t₁, hstore, hload⟩ := Option.bind_eq_some_iff.mp hload
      exact ih (filled_storeLine hatoi hline ht hstore) hload

theorem filled_scoreboardInit (hatoi : IsAtoi atoi) {file : Option (List UInt8)} {t : Scoreboard}
    (h : scoreboardInit atoi file = some t) : Filled IsField t := by
  cases file with
  | none =>
    cases h
    exact filled_defaults isField_player
  | some file => exact filled_loadLines hatoi (filled_defaults isField_player) h

/-! ## What is read back -/

theorem getline_append {line : List UInt8} (hline : newline ∉ line) (rest : List UInt8) :
    getline (line ++ newline :: rest) = some (line ++ [newline], rest) := by
  have htake : (line ++ newline :: rest).takeWhile (fun b => b != newline) = line := by
    apply takeWhile_append_eq
    · intro b hb
      have hne : b ≠ newline := fun heq => hline (heq ▸ hb)
      simp [hne]
    · simp
  unfold getline
  rw [if_neg (by simp)]
  dsimp only
  rw [htake]
  simp [List.take_append, List.drop_append]

def fields (place : Nat) (name : List UInt8) (score : Nat) : List UInt8 :=
  ascii (toString place) ++ 9 :: 9 :: (name ++ 9 :: 9 :: ascii (toString score))

theorem not_mem_fields {b : UInt8} {name : List UInt8} (hdigit : isDigit b = false) (htab : b ≠ 9)
    (hname : b ∉ name) (place score : Nat) : b ∉ fields place name score := by
  have hdigits : ∀ n : Nat, b ∉ ascii (toString n) := by
    intro n hmem
    rw [isDigit_of_mem_ascii_toString hmem] at hdigit
    cases hdigit
  unfold fields
  simp only [List.mem_append, List.mem_cons, not_or]
  exact ⟨hdigits place, htab, htab, hname, htab, htab, hdigits score⟩

theorem mem_delim {b : UInt8} : b ∈ delim ↔ b = 9 := by simp [delim]

theorem strtok_fields {name : List UInt8} (hname : IsField name) (place score : Nat) :
    ∃ rest rest',
      strtok delim (fields place name score ++ [newline]) =
        (some (ascii (toString place)), rest) ∧
      strtok delim rest = (some name, rest') ∧
      strtok delim rest' = (some (ascii (toString score) ++ [newline]), []) := by
  have hdigits : ∀ n : Nat, 9 ∉ ascii (toString n) := by
    intro n hmem
    cases isDigit_of_mem_ascii_toString hmem
  have hdelim : ∀ {token : List UInt8}, 9 ∉ token → ∀ b ∈ token, b ∉ delim := by
    intro token htoken b hb hmem
    rw [mem_delim] at hmem
    exact htoken (hmem ▸ hb)
  refine ⟨9 :: (name ++ 9 :: 9 :: (ascii (toString score) ++ [newline])),
    9 :: (ascii (toString score) ++ [newline]), ?_, ?_, ?_⟩
  · unfold fields
    simp only [List.append_assoc, List.cons_append]
    exact strtok_eq (ascii_toString_ne_nil place) (hdelim (hdigits place)) (by simp [mem_delim])
  · rw [strtok_cons_of_mem (by decide)]
    exact strtok_eq hname.ne_nil (hdelim hname.noTab) (by simp [mem_delim])
  · rw [strtok_cons_of_mem (by decide)]
    have hscore : 9 ∉ ascii (toString score) ++ [newline] := by
      rw [List.mem_append, not_or]
      exact ⟨hdigits score, by decide⟩
    exact strtok_last (by simp) (hdelim hscore)

theorem saveLine_eq {t : Scoreboard} (ht : Filled IsField t) (i : Fin 10) :
    ∃ (name : List UInt8) (score : Nat), t.names i = some name ∧ IsField name ∧
      t.scores i = score ∧ (score : Int) ≤ intMax ∧
      saveLine t i = fields (i.val + 1) name score ++ [newline] := by
  obtain ⟨name, hname, hfield⟩ := ht.names i
  obtain ⟨h₀, -, hmax⟩ := ht.scores i
  obtain ⟨score, hscore⟩ := Int.eq_ofNat_of_zero_le h₀
  refine ⟨name, score, hname, hfield, hscore, ?_, ?_⟩
  · unfold intMax
    omega
  · unfold saveLine fields
    rw [hname, hscore]
    simp only [delim, Option.getD_some, List.append_assoc, List.cons_append, List.nil_append]
    rfl

theorem parseLine_saveLine (hatoi : IsAtoi atoi) {t : Scoreboard} (ht : Filled IsField t)
    (i : Fin 10) : parseLine atoi (saveLine t i) =
      { place := i.val, name := t.names i, score := t.scores i } := by
  obtain ⟨name, score, hname, hfield, hscore, hmax, hline⟩ := saveLine_eq ht i
  have hnul : 0 ∉ saveLine t i := by
    rw [hline, List.mem_append, not_or]
    exact ⟨not_mem_fields (by decide) (by decide) hfield.noNul _ _, by decide⟩
  obtain ⟨rest, rest', hplace, htoken, hlast⟩ := strtok_fields hfield (i.val + 1) score
  have hatoiPlace : atoi (ascii (toString (i.val + 1))) = (i.val + 1 : Nat) := by
    have hvalue := hatoi.decimal (i.val + 1) [] (by unfold intMax; omega) (by simp)
    rwa [List.append_nil] at hvalue
  have hatoiScore := hatoi.decimal score [newline] hmax (by simp [newline, isDigit])
  unfold parseLine
  rw [cString_eq_self hnul, hline, hplace]
  dsimp only
  rw [htoken, hname, hscore]
  dsimp only
  rw [hlast]
  dsimp only
  have hindex : ((i.val + 1 : Nat) : Int) + -1 = i.val := by omega
  rw [hatoiPlace, hatoiScore, intAdd_eq ⟨by omega, by omega⟩, hindex]

theorem newline_not_mem {t : Scoreboard} (ht : Filled IsField t) (i : Fin 10) :
    ∃ line, saveLine t i = line ++ [newline] ∧ newline ∉ line := by
  obtain ⟨name, score, -, hfield, -, -, hline⟩ := saveLine_eq ht i
  exact ⟨_, hline, not_mem_fields (by decide) (by decide) hfield.noNewline _ _⟩

theorem storeLine_saveLine (hatoi : IsAtoi atoi) {t : Scoreboard} (ht : Filled IsField t)
    (t' : Scoreboard) (i : Fin 10) :
    storeLine t' (parseLine atoi (saveLine t i)) =
      some (t'.set i (t.names i) (t.scores i)) := by
  obtain ⟨name, hname, -⟩ := ht.names i
  obtain ⟨h₀, -⟩ := ht.scores i
  rw [parseLine_saveLine hatoi ht]
  have hplace : (i.val : Int) < scoreboardLen := by
    unfold scoreboardLen
    omega
  unfold storeLine
  rw [if_pos ⟨hplace, by simp [hname], h₀⟩, dif_pos ⟨Int.natCast_nonneg _, hplace⟩]
  simp

theorem loadLines_saveLine (hatoi : IsAtoi atoi) {t : Scoreboard} (ht : Filled IsField t)
    (places : List (Fin 10)) {n : Nat} (hn : places.length ≤ n) (t' : Scoreboard) :
    loadLines atoi n (places.flatMap (saveLine t)) t' =
      some (places.foldl (fun t' i => t'.set i (t.names i) (t.scores i)) t') := by
  induction places generalizing n t' with
  | nil => cases n <;> rfl
  | cons i places ih =>
    cases n with
    | zero => cases hn
    | succ n =>
      obtain ⟨line, hline, hno⟩ := newline_not_mem ht i
      have hget : getline ((i :: places).flatMap (saveLine t)) =
          some (saveLine t i, places.flatMap (saveLine t)) := by
        rw [List.flatMap_cons, hline, List.append_assoc]
        exact getline_append hno _
      unfold loadLines
      rw [hget]
      dsimp only
      rw [storeLine_saveLine hatoi ht, Option.bind_some, List.foldl_cons]
      exact ih (Nat.le_of_succ_le_succ hn) _

theorem entry_foldl_set (t : Scoreboard) (places : List (Fin 10)) (t' : Scoreboard) (j : Fin 10) :
    (places.foldl (fun t' i => t'.set i (t.names i) (t.scores i)) t').entry j =
      if j ∈ places then t.entry j else t'.entry j := by
  induction places generalizing t' with
  | nil => simp
  | cons i places ih =>
    rw [List.foldl_cons, ih, Scoreboard.entry_set]
    by_cases hj : j = i
    · simp [hj, Scoreboard.entry]
    · simp [hj]

theorem scoreboardInit_scoreboardSave (hatoi : IsAtoi atoi) {t : Scoreboard}
    (ht : Filled IsField t) :
    scoreboardInit atoi (some (scoreboardSave t)) = some t := by
  unfold scoreboardInit scoreboardLoad scoreboardSave
  dsimp only
  rw [loadLines_saveLine hatoi ht _ (by simp)]
  apply congrArg some
  apply Scoreboard.ext_entry
  intro i
  rw [entry_foldl_set, if_pos (List.mem_finRange i)]

theorem exists_loadLines {n : Nat} {file : List UInt8}
    (hplaces : ∀ line ∈ getlines n file,
      (parseLine atoi line).Accepted → 0 ≤ (parseLine atoi line).place) (t : Scoreboard) :
    ∃ t', loadLines atoi n file t = some t' := by
  induction n generalizing file t with
  | zero => exact ⟨t, rfl⟩
  | succ n ih =>
    unfold getlines at hplaces
    unfold loadLines
    cases hline : getline file with
    | none => exact ⟨t, rfl⟩
    | some read =>
      obtain ⟨line, rest⟩ := read
      rw [hline] at hplaces
      obtain ⟨hplace, hplaces⟩ := List.forall_mem_cons.mp hplaces
      obtain ⟨t', hstore⟩ : ∃ t', storeLine t (parseLine atoi line) = some t' := by
        unfold storeLine
        split
        · rename_i haccepted
          rw [dif_pos ⟨hplace haccepted, haccepted.1⟩]
          exact ⟨_, rfl⟩
        · exact ⟨t, rfl⟩
      dsimp only
      rw [hstore, Option.bind_some]
      exact ih hplaces t'

/-- Loading, saving and loading again gives the table of the first time. -/
theorem load_save_load (hatoi : IsAtoi atoi) {file : List UInt8}
    (hplaces : ∀ line ∈ getlines 10 file,
      (parseLine atoi line).Accepted → 0 ≤ (parseLine atoi line).place) :
    ∃ t, scoreboardInit atoi (some file) = some t ∧
      scoreboardInit atoi (some (scoreboardSave t)) = some t := by
  obtain ⟨t, hlines⟩ := exists_loadLines hplaces defaults
  have hload : scoreboardInit atoi (some file) = some t := hlines
  exact ⟨t, hload, scoreboardInit_scoreboardSave hatoi (filled_scoreboardInit hatoi hload)⟩

/-! ## Names from the player -/

theorem prompted_spec {name : List UInt8} (h : Prompted name) :
    name ≠ [] ∧ newline ∉ name ∧ 0 ∉ name := by
  obtain ⟨input, rfl⟩ := h
  have hplayer := isField_player
  unfold readName
  split
  · exact ⟨hplayer.ne_nil, hplayer.noNewline, hplayer.noNul⟩
  · rename_i line hline
    dsimp only
    split
    · rename_i hlong
      obtain ⟨read, -, rfl⟩ := Option.map_eq_some_iff.mp hline
      refine ⟨?_, ?_, ?_⟩
      · rintro heq
        rw [heq] at hlong
        cases hlong
      · intro hmem
        simpa using List.mem_takeWhile_imp hmem
      · intro hmem
        exact zero_not_mem_cString _ (List.takeWhile_subset _ hmem)
    · exact ⟨hplayer.ne_nil, hplayer.noNewline, hplayer.noNul⟩

/-- A tab in a name ends it, and shifts the fields behind it. -/
theorem saved_table_returns_iff (hatoi : IsAtoi atoi) {t : Scoreboard} (ht : Filled Prompted t) :
    scoreboardInit atoi (some (scoreboardSave t)) = some t ↔
      ∀ i name, t.names i = some name → 9 ∉ name := by
  constructor
  · intro h i name hname
    obtain ⟨name', hname', hfield⟩ := (filled_scoreboardInit hatoi h).names i
    cases hname.symm.trans hname'
    exact hfield.noTab
  · intro htabs
    apply scoreboardInit_scoreboardSave hatoi
    refine ⟨fun i => ?_, ht.scores⟩
    obtain ⟨name, hname, hprompted⟩ := ht.names i
    obtain ⟨hne, hnewline, hnul⟩ := prompted_spec hprompted
    exact ⟨name, hname, hne, htabs i name hname, hnewline, hnul⟩

end Load

def raggedFile : List UInt8 := ascii "3\tann\t500\n\n3\t\tbob\t\t-1\tx\nzoe"

theorem load_save_load_of_ragged_file : ∃ t, scoreboardInit atoi (some raggedFile) = some t ∧
    scoreboardInit atoi (some (scoreboardSave t)) = some t :=
  load_save_load isAtoi_atoi (by decide)

/-- The default table after `name` has won. -/
def wonBy (name : List UInt8) : Scoreboard := defaults.set 0 (some name) 1200

theorem filled_wonBy {name : List UInt8} (hname : Prompted name) : Filled Prompted (wonBy name) :=
  filled_set (filled_defaults ⟨[], rfl⟩) 0 hname (by decide)

theorem saved_table_returns_iff_for_ann :
    scoreboardInit atoi (some (scoreboardSave (wonBy (ascii "ann")))) =
      some (wonBy (ascii "ann")) ↔
    ∀ i name, (wonBy (ascii "ann")).names i = some name → 9 ∉ name :=
  saved_table_returns_iff isAtoi_atoi (filled_wonBy ⟨ascii "ann\n", by decide⟩)

/-- A player who enters a tab. -/
theorem tabbed_name_is_not_read_back : ¬ ∀ t, Filled Prompted t →
    scoreboardInit atoi (some (scoreboardSave t)) = some t := by
  intro h
  have hload := h (wonBy (ascii "a\tb")) (filled_wonBy ⟨ascii "a\tb\n", by decide⟩)
  obtain ⟨name, hname, hfield⟩ := (filled_scoreboardInit isAtoi_atoi hload).names 0
  cases hname
  exact hfield.noTab (by decide)

end Homework.Tetris
