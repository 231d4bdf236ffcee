import Mathlib.Data.Fintype.Basic
import Mathlib.Logic.Function.Basic
import Homework.Shared.CString

/-!
# The scoreboard

`hw17-tetris/scoreboard.c`, with the question for the name in `hw17-tetris/main.c`. The
content of `scoreboard.txt` is a list of bytes, and `none` where it cannot be opened. A name
is the string in it, and a function that would write outside the arrays returns `none`.
-/

namespace Homework.Tetris

set_option autoImplicit false

def scoreboardLen : Int := 10

/-- `DELIM`. -/
def delim : List UInt8 := [9, 9]

def newline : UInt8 := 10

structure Scoreboard where
  names : Fin 10 → Option (List UInt8)
  scores : Fin 10 → Int

def Scoreboard.set (t : Scoreboard) (i : Fin 10) (name : Option (List UInt8)) (score : Int) :
    Scoreboard where
  names := Function.update t.names i name
  scores := Function.update t.scores i score

/-- What stands in one place of the two arrays. -/
def Scoreboard.entry (t : Scoreboard) (i : Fin 10) : Option (List UInt8) × Int :=
  (t.names i, t.scores i)

theorem Scoreboard.ext_entry {t t' : Scoreboard} (h : ∀ i, t.entry i = t'.entry i) : t = t' := by
  cases t
  cases t'
  congr
  · exact funext fun i => congrArg Prod.fst (h i)
  · exact funext fun i => congrArg Prod.snd (h i)

theorem Scoreboard.entry_set (t : Scoreboard) (i j : Fin 10) (name : Option (List UInt8))
    (score : Int) : (t.set i name score).entry j = if j = i then (name, score) else t.entry j := by
  unfold Scoreboard.entry Scoreboard.set
  simp only [Function.update_apply]
  split <;> rfl

/-! ## Inserting -/

/-- The first loop of `scoreboard_insert`. -/
def findPlace (t : Scoreboard) (score : Int) : Option (Fin 10) :=
  (List.finRange 10).find? fun i => decide (score ≥ t.scores i)

/-- The second loop of `scoreboard_insert`, from `i` down to `place`. -/
def shiftDown (place : Fin 10) : (i : Nat) → i < 10 → Scoreboard → Scoreboard
  | 0, _, t => t
  | i + 1, h, t =>
    if (place : Nat) < i + 1 then
      shiftDown place i (by omega)
        (t.set ⟨i + 1, h⟩ (t.names ⟨i, by omega⟩) (t.scores ⟨i, by omega⟩))
    else t

def scoreboardInsert (t : Scoreboard) (name : List UInt8) (score : Int) : Scoreboard :=
  match findPlace t score with
  | none => t
  | some place => (shiftDown place 9 (by omega) t).set place (some name) score

theorem entry_shiftDown (place : Fin 10) (i : Nat) (h : i < 10) (t : Scoreboard) (k : Fin 10) :
    (shiftDown place i h t).entry k =
      if place < k ∧ k.val ≤ i then t.entry ⟨k - 1, by omega⟩ else t.entry k := by
  induction i generalizing t with
  | zero =>
    rw [shiftDown, if_neg (by omega)]
  | succ i ih =>
    rw [shiftDown]
    split
    · rename_i hplace
      simp only [ih, Scoreboard.entry_set, Fin.ext_iff]
      by_cases hk : k.val = i + 1
      · rw [if_neg (by omega), if_pos hk, if_pos (by omega)]
        simp [hk, Scoreboard.entry]
      · by_cases hmoved : place < k ∧ k.val ≤ i
        · rw [if_pos hmoved, if_neg (by omega), if_pos (by omega)]
        · rw [if_neg hmoved, if_neg hk, if_neg (by omega)]
    · rw [if_neg (by omega)]

theorem entry_scoreboardInsert {t : Scoreboard} {score : Int} {place : Fin 10}
    (hplace : findPlace t score = some place) (name : List UInt8) (k : Fin 10) :
    (scoreboardInsert t name score).entry k =
      if k < place then t.entry k
      else if k = place then (some name, score)
      else t.entry ⟨k - 1, by omega⟩ := by
  unfold scoreboardInsert
  rw [hplace]
  simp only [Scoreboard.entry_set, entry_shiftDown]
  by_cases hk : k = place
  · rw [if_pos hk, if_neg (by omega), if_pos hk]
  · rw [if_neg hk, if_neg hk]
    by_cases hlt : k < place
    · rw [if_neg (by omega), if_pos hlt]
    · rw [if_pos (by omega), if_neg hlt]

/-! ## Loading and saving -/

def getline (file : List UInt8) : Option (List UInt8 × List UInt8) :=
  if file = [] then none
  else
    let len := (file.takeWhile fun b => b != newline).length + 1
    some (file.take len, file.drop len)

/-- The variables `place`, `name` and `score` of `scoreboard_load`. -/
structure Stored where
  place : Int
  name : Option (List UInt8)
  score : Int

def Stored.Accepted (line : Stored) : Prop :=
  line.place < scoreboardLen ∧ line.name.isSome ∧ line.score ≥ 0

instance (line : Stored) : Decidable line.Accepted := inferInstanceAs (Decidable (_ ∧ _))

section Load

variable (atoi : List UInt8 → Int)

def parseLine (line : List UInt8) : Stored :=
  let (token, rest) := strtok delim (cString line)
  let place := match token with
    | some token => intAdd (atoi token) (-1)
    | none => 0
  let (name, rest) := strtok delim rest
  let (token, _) := strtok delim rest
  let score := match token with
    | some token => atoi token
    | none => -1
  { place, name, score }

def storeLine (t : Scoreboard) (line : Stored) : Option Scoreboard :=
  if line.Accepted then
    if h : 0 ≤ line.place ∧ line.place < 10 then
      some (t.set ⟨line.place.toNat, by omega⟩ line.name line.score)
    else none
  else some t

/-- The loop of `scoreboard_load`, with its number of rounds to go. -/
def loadLines : Nat → List UInt8 → Scoreboard → Option Scoreboard
  | 0, _, t => some t
  | n + 1, file, t =>
    match getline file with
    | none => some t
    | some (line, file) => (storeLine t (parseLine atoi line)).bind (loadLines n file)

/-- The lines that `loadLines` reads. -/
def getlines : Nat → List UInt8 → List (List UInt8)
  | 0, _ => []
  | n + 1, file =>
    match getline file with
    | none => []
    | some (line, file) => line :: getlines n file

def scoreboardLoad (t : Scoreboard) : Option (List UInt8) → Option Scoreboard
  | none => some t
  | some file => loadLines atoi 10 file t

def blank : Scoreboard where
  names := fun _ => none
  scores := fun _ => -1

def player : List UInt8 := ascii "PLAYER"

def defaults : Scoreboard :=
  (List.range 10).foldl (fun t (i : Nat) => scoreboardInsert t player (i * 100)) blank

def scoreboardInit (file : Option (List UInt8)) : Option Scoreboard :=
  scoreboardLoad atoi defaults file

end Load

/-- A name that is `NULL` is printed as glibc prints it. -/
def saveLine (t : Scoreboard) (i : Fin 10) : List UInt8 :=
  ascii (toString (i.val + 1)) ++ delim ++ (t.names i).getD (ascii "(null)") ++ delim ++
    ascii (toString (t.scores i)) ++ [newline]

def scoreboardSave (t : Scoreboard) : List UInt8 := (List.finRange 10).flatMap (saveLine t)

/-! ## The name of the player -/

/-- `fgets` with a buffer of `size` bytes: the string in the buffer, if it has read any. -/
def fgets (size : Nat) (input : List UInt8) : Option (List UInt8) :=
  (getline input).map fun read => cString (read.1.take (size - 1))

/-- What `main` takes for the name when `input` comes from the player. -/
def readName (input : List UInt8) : List UInt8 :=
  match fgets 256 input with
  | none => player
  | some name =>
    let line := name.takeWhile fun b => b != newline
    if line.length > 1 then line else player

end Homework.Tetris
