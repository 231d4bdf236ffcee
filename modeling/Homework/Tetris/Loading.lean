import Homework.Tetris.Scoreboard

/-!
# Where a file writes

`scoreboard_load` checks the place of a line against the end of the table and not against its
beginning. So a line with a name and a score is kept in the table by its first field only, which
has to read as a positive number.
-/

namespace Homework.Tetris

set_option autoImplicit false

/-- The three tokens of a line. -/
def tokens (line : List UInt8) : Option (List UInt8) × Option (List UInt8) × Option (List UInt8) :=
  ((strtok delim (cString line)).1, (strtok delim (strtok delim (cString line)).2).1,
    (strtok delim (strtok delim (strtok delim (cString line)).2).2).1)

/-- The line is refused, or its first field is the number of a place or too large for one. With
the smallest `int` the place wraps around. -/
def KeepsTable (line : List UInt8) : Prop :=
  ∀ first second third, tokens line = (some first, some second, some third) →
    0 ≤ atoi third → 1 ≤ atoi first ∨ atoi first = -2 ^ 31

/-! ## The tokens -/

theorem parseLine_eq (line : List UInt8) : parseLine atoi line =
    { place := match (tokens line).1 with
        | some first => intAdd (atoi first) (-1)
        | none => 0
      name := (tokens line).2.1
      score := match (tokens line).2.2 with
        | some third => atoi third
        | none => -1 } := rfl

theorem strtok_of_none {s : List UInt8} (h : (strtok delim s).1 = none) :
    (strtok delim s).2 = [] := by
  unfold strtok at h ⊢
  dsimp only at h ⊢
  split
  · rfl
  · rename_i hne
    rw [if_neg hne] at h
    cases h

/-- A line with a second field has a first one. -/
theorem exists_first {line second : List UInt8} (h : (tokens line).2.1 = some second) :
    ∃ first, (tokens line).1 = some first := by
  cases hfirst : (tokens line).1 with
  | some first => exact ⟨first, rfl⟩
  | none =>
    have hrest : (strtok delim (cString line)).2 = [] := strtok_of_none hfirst
    unfold tokens at h
    rw [hrest, strtok_nil] at h
    cases h

theorem place_accepted_iff {first : List UInt8} :
    (intAdd (atoi first) (-1) < scoreboardLen → 0 ≤ intAdd (atoi first) (-1)) ↔
      1 ≤ atoi first ∨ atoi first = -2 ^ 31 := by
  obtain ⟨hlo, hhi⟩ := isAtoi_atoi.inInt first
  unfold scoreboardLen
  by_cases hmin : atoi first = -2 ^ 31
  · rw [hmin]
    decide
  · rw [intAdd_eq ⟨by omega, by omega⟩]
    omega

theorem keepsTable_iff (line : List UInt8) :
    ((parseLine atoi line).Accepted → 0 ≤ (parseLine atoi line).place) ↔ KeepsTable line := by
  rw [parseLine_eq]
  unfold Stored.Accepted KeepsTable
  rcases htokens : tokens line with ⟨first, second, third⟩
  have hfirst : ∀ name, second = some name → ∃ text, first = some text := by
    rintro name rfl
    have hexists := @exists_first line name (by rw [htokens])
    rwa [htokens] at hexists
  cases second with
  | none => simp
  | some second =>
    obtain ⟨first, rfl⟩ := hfirst second rfl
    cases third with
    | none => simp
    | some third =>
      have hplace := @place_accepted_iff first
      constructor
      · rintro h _ _ _ ⟨⟩ hscore
        exact hplace.mp fun hlt => h ⟨hlt, rfl, hscore⟩
      · intro h hline
        exact hplace.mpr (h first second third rfl hline.2.2) hline.1

/-! ## Loading -/

theorem isSome_storeLine_iff (t : Scoreboard) (line : Stored) :
    (storeLine t line).isSome ↔ (line.Accepted → 0 ≤ line.place) := by
  unfold storeLine
  split
  · rename_i haccepted
    have hlt : line.place < 10 := haccepted.1
    split
    · rename_i hin
      simp [hin.1]
    · rename_i hout
      have hneg : ¬ 0 ≤ line.place := fun h => hout ⟨h, hlt⟩
      simp [haccepted, hneg]
  · rename_i hrefused
    simp [hrefused]

theorem isSome_loadLines_iff (n : Nat) (file : List UInt8) (t : Scoreboard) :
    (loadLines atoi n file t).isSome ↔ ∀ line ∈ getlines n file,
      (parseLine atoi line).Accepted → 0 ≤ (parseLine atoi line).place := by
  induction n generalizing file t with
  | zero => simp [loadLines, getlines]
  | succ n ih =>
    rw [loadLines, getlines]
    cases hline : getline file with
    | none => simp
    | some read =>
      obtain ⟨line, rest⟩ := read
      dsimp only
      rw [List.forall_mem_cons, ← isSome_storeLine_iff t]
      cases hstore : storeLine t (parseLine atoi line) with
      | none => simp
      | some t' => simp [ih]

theorem load_stays_inside_iff (t : Scoreboard) (file : List UInt8) :
    (scoreboardLoad atoi t (some file)).isSome ↔ ∀ line ∈ getlines 10 file, KeepsTable line := by
  rw [scoreboardLoad, isSome_loadLines_iff]
  simp only [keepsTable_iff]

/-- A place 0 is stored in front of the table. -/
theorem zeroth_place_leaves_table :
    ¬ (scoreboardLoad atoi defaults (some (ascii "0\t\tANN\t\t5\n"))).isSome := by
  decide

end Homework.Tetris
