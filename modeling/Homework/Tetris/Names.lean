import Homework.Shared.Blocks
import Homework.Tetris.Sessions

/-!
# The names of the table

`hw17-tetris/scoreboard.c` and `main.c` once more, now with the names as blocks that `malloc`
allocates. Every place of the table has its own, also while `scoreboard_insert` moves the
addresses down and drops the last one. `scoreboard_load` stores a name over the one that is there
without freeing that, and keeps the name of a line that it does not store.

The buffer of `getline` is not among the blocks.
-/

namespace Homework.Tetris.Names

set_option autoImplicit false

open Blocks

/-! ## The code -/

structure Memory where
  blocks : Store (List UInt8)
  names : Fin 10 → Option Nat
  scores : Fin 10 → Int

def Memory.set (mem : Memory) (i : Fin 10) (name : Option Nat) (score : Int) : Memory where
  blocks := mem.blocks
  names := Function.update mem.names i name
  scores := Function.update mem.scores i score

def free (mem : Memory) (a : Nat) : Option Memory := do
  let _ ← mem.blocks a
  return { mem with blocks := Function.update mem.blocks a none }

def freeName (mem : Memory) (i : Fin 10) : Option Memory :=
  match mem.names i with
  | none => some mem
  | some a => free mem a

def findPlace (mem : Memory) (score : Int) : Option (Fin 10) :=
  (List.finRange 10).find? fun i => decide (score ≥ mem.scores i)

theorem lt_ten_of_succ {i : Nat} (h : i + 1 < 10) : i < 10 := Nat.lt_of_succ_lt h

theorem pred_lt_ten (k : Fin 10) : (k : Nat) - 1 < 10 := by omega

theorem nine_lt_ten : 9 < 10 := by decide

theorem toNat_lt_ten {line : Stored} (h : 0 ≤ line.place ∧ line.place < 10) :
    line.place.toNat < 10 := by omega

/-- The second loop of `scoreboard_insert`, from `i` down to `place`. -/
def shiftDown (place : Fin 10) : (i : Nat) → i < 10 → Memory → Memory
  | 0, _, mem => mem
  | i + 1, h, mem =>
    if (place : Nat) < i + 1 then
      shiftDown place i (lt_ten_of_succ h)
        (mem.set ⟨i + 1, h⟩ (mem.names ⟨i, lt_ten_of_succ h⟩) (mem.scores ⟨i, lt_ten_of_succ h⟩))
    else mem

section Code
variable (malloc : Store (List UInt8) → Nat)

/-- `malloc` and `memcpy`, and the address. -/
def copy (mem : Memory) (name : List UInt8) : Memory × Nat :=
  let a := malloc mem.blocks
  ({ mem with blocks := Function.update mem.blocks a (some name) }, a)

def scoreboardInsert (mem : Memory) (name : List UInt8) (score : Int) : Option Memory :=
  match findPlace mem score with
  | none => some mem
  | some place => do
    let mem ← freeName mem (Fin.last 9)
    let mem := shiftDown place 9 nine_lt_ten mem
    let copied := copy malloc mem name
    return copied.1.set place (some copied.2) score

/-- The variable `name` of `scoreboard_load`. -/
def copyToken (mem : Memory) : Option (List UInt8) → Memory × Option Nat
  | none => (mem, none)
  | some token => ((copy malloc mem token).1, some (copy malloc mem token).2)

def storeLine (mem : Memory) (line : Stored) : Option Memory :=
  match copyToken malloc mem line.name with
  | (mem, none) => some mem
  | (mem, some name) =>
    if line.place < scoreboardLen ∧ line.score ≥ 0 then
      if h : 0 ≤ line.place ∧ line.place < 10 then do
        let value ← mem.blocks name
        let copied := copy malloc mem value
        free (copied.1.set ⟨line.place.toNat, toNat_lt_ten h⟩ (some copied.2) line.score) name
      else none
    else some mem

/-- The loop of `scoreboard_load`, with its number of rounds to go. -/
def loadLines : Nat → List UInt8 → Memory → Option Memory
  | 0, _, mem => some mem
  | n + 1, file, mem =>
    match getline file with
    | none => some mem
    | some (line, file) => (storeLine malloc mem (parseLine atoi line)).bind (loadLines n file)

def scoreboardLoad (mem : Memory) : Option (List UInt8) → Option Memory
  | none => some mem
  | some file => loadLines malloc 10 file mem

def blank : Memory where
  blocks := fun _ => none
  names := fun _ => none
  scores := fun _ => -1

def scoreboardInit (file : Option (List UInt8)) : Option Memory := do
  let mem ← (List.range 10).foldlM
    (fun mem (i : Nat) => scoreboardInsert malloc mem player (i * 100)) blank
  scoreboardLoad malloc mem file

/-- The table with the names as they are read. -/
def table (mem : Memory) : Option Scoreboard :=
  if ∀ i, (mem.names i).all fun a => (mem.blocks a).isSome then
    some { names := fun i => (mem.names i).bind mem.blocks, scores := mem.scores }
  else none

def scoreboardSave (mem : Memory) : Option (List UInt8) := (table mem).map Tetris.scoreboardSave

def scoreboardFree (mem : Memory) (saves : Bool) (file : Option (List UInt8)) :
    Option (Option (List UInt8) × Memory) := do
  let saved ← if saves then (scoreboardSave mem).map some else some file
  let mem ← (List.finRange 10).foldlM freeName mem
  return (saved, mem)

def main (file : Option (List UInt8)) (session : Session) :
    Option (Option (List UInt8) × Memory) := do
  let mem ← scoreboardInit malloc file
  let g ← runGame session.rand session.frames
  if g.isGameOver then
    let mem ← scoreboardInsert malloc mem (readName session.input) g.score
    scoreboardFree mem session.saves file
  else none

end Code

/-! ## Whose the blocks are -/

/-- The blocks of the places, and those that have no place any more. -/
def owners (names : Fin 10 → Option Nat) (lost : List Nat) : Option (Fin 10) → List Nat
  | none => lost
  | some i => (names i).toList

/-- The table with these names. Every block that is allocated is one of them or lost. -/
structure Represents (mem : Memory) (t : Scoreboard) (lost : List Nat) : Prop where
  owns : Owns mem.blocks (owners mem.names lost)
  entry : ∀ i, ((mem.names i).bind mem.blocks, mem.scores i) = t.entry i

section Inserting
variable {mem : Memory} {t : Scoreboard} {lost : List Nat}

theorem bind_names_congr {blocks blocks' : Store (List UInt8)} {names : Fin 10 → Option Nat}
    {i : Fin 10} (hsame : ∀ a ∈ (names i).toList, blocks' a = blocks a) :
    (names i).bind blocks' = (names i).bind blocks := by
  cases hname : names i with
  | none => rfl
  | some a => exact hsame a (by simp [hname])

theorem blocks_shiftDown (place : Fin 10) (i : Nat) (h : i < 10) (mem : Memory) :
    (shiftDown place i h mem).blocks = mem.blocks := by
  induction i generalizing mem with
  | zero => rfl
  | succ i ih =>
    rw [shiftDown]
    split
    · exact ih _ _
    · rfl

/-- The address and the score in one place. -/
def Memory.entry (mem : Memory) (i : Fin 10) : Option Nat × Int := (mem.names i, mem.scores i)

theorem Memory.entry_set (mem : Memory) (i j : Fin 10) (name : Option Nat) (score : Int) :
    (mem.set i name score).entry j = if j = i then (name, score) else mem.entry j := by
  unfold Memory.entry Memory.set
  simp only [Function.update_apply]
  split <;> rfl

theorem entry_shiftDown (place : Fin 10) (i : Nat) (h : i < 10) (mem : Memory) (k : Fin 10) :
    (shiftDown place i h mem).entry k =
      if place < k ∧ k.val ≤ i then mem.entry ⟨k - 1, pred_lt_ten k⟩ else mem.entry k := by
  induction i generalizing mem with
  | zero =>
    rw [shiftDown, if_neg (by omega)]
  | succ i ih =>
    rw [shiftDown]
    split
    · rename_i hplace
      simp only [ih, Memory.entry_set, Fin.ext_iff]
      by_cases hk : k.val = i + 1
      · rw [if_neg (by omega), if_pos hk, if_pos (by omega)]
        simp [hk, Memory.entry]
      · by_cases hmoved : place < k ∧ k.val ≤ i
        · rw [if_pos hmoved, if_neg (by omega), if_pos (by omega)]
        · rw [if_neg hmoved, if_neg hk, if_neg (by omega)]
    · rw [if_neg (by omega)]

/-- Where the name in a place comes from. The last one is moved to the place of the new one. -/
def source (place k : Fin 10) : Fin 10 :=
  if k < place then k else if k = place then Fin.last 9 else ⟨k - 1, pred_lt_ten k⟩

theorem bijective_source (place : Fin 10) : Function.Bijective (Option.map (source place)) := by
  apply Finite.injective_iff_bijective.mp
  apply Option.map_injective
  intro i j hij
  unfold source at hij
  split_ifs at hij <;> simp only [Fin.ext_iff, Fin.lt_def, Fin.val_last] at * <;> omega

theorem freeName_spec {own : Option (Fin 10) → List Nat} (howns : Owns mem.blocks own)
    {i : Fin 10} (hi : own (some i) = (mem.names i).toList) :
    ∃ mem', freeName mem i = some mem' ∧ mem'.names = mem.names ∧ mem'.scores = mem.scores ∧
      Owns mem'.blocks (Function.update own (some i) []) ∧
      ∀ j, j ≠ some i → ∀ a ∈ own j, mem'.blocks a = mem.blocks a := by
  unfold freeName
  cases hname : mem.names i with
  | none =>
    rw [hname, Option.toList_none] at hi
    refine ⟨mem, rfl, rfl, rfl, ?_, fun _ _ _ _ => rfl⟩
    rwa [← hi, Function.update_eq_self]
  | some a =>
    rw [hname, Option.toList_some] at hi
    have ha : a ∈ own (some i) := hi ▸ List.mem_cons_self
    obtain ⟨value, hvalue⟩ := Option.isSome_iff_exists.mp ((howns.isSome a).mpr ⟨_, ha⟩)
    refine ⟨{ mem with blocks := Function.update mem.blocks a none }, ?_, rfl, rfl,
      howns.free (List.Perm.of_eq hi), fun j hj b hb => ?_⟩
    · simp only [free, hvalue]
      rfl
    · exact Function.update_of_ne (ne_of_mem_of_not_mem hb (howns.apart ha hj)) _ _

variable {malloc : Store (List UInt8) → Nat}

/-- What the second loop makes of the names and the scores, and the place of the new name. -/
theorem entry_inserted (place : Fin 10) (mem : Memory) (a : Nat) (score : Int) (k : Fin 10) :
    ((shiftDown place 9 nine_lt_ten mem).set place (some a) score).entry k =
      if k = place then (some a, score) else mem.entry (source place k) := by
  rw [Memory.entry_set, entry_shiftDown, source]
  by_cases hk : k = place
  · rw [if_pos hk, if_pos hk]
  · rw [if_neg hk, if_neg hk, if_neg hk]
    by_cases hlt : k < place
    · rw [if_neg (by omega), if_pos hlt]
    · rw [if_pos (by omega), if_neg hlt]

theorem source_ne_last {place k : Fin 10} (hk : k ≠ place) : source place k ≠ Fin.last 9 := by
  unfold source
  rw [Ne, Fin.ext_iff] at hk ⊢
  split_ifs <;> simp only [Fin.ext_iff, Fin.lt_def, Fin.val_last] at * <;> omega

theorem owners_inserted (place : Fin 10) {names names' : Fin 10 → Option Nat} (lost : List Nat)
    (a : Nat) (hnames : ∀ k, names' k = if k = place then some a else names (source place k)) :
    owners names' lost = Function.update
      (Function.update (owners names lost) (some (Fin.last 9)) [] ∘ Option.map (source place))
      (some place) [a] := by
  funext i
  cases i with
  | none =>
    rw [Function.update_of_ne (by simp), Function.comp_apply, Option.map_none,
      Function.update_of_ne (by simp)]
    rfl
  | some k =>
    rw [owners, hnames]
    by_cases hk : k = place
    · rw [if_pos hk, hk, Function.update_self, Option.toList_some]
    · rw [if_neg hk, Function.update_of_ne (by simpa using hk), Function.comp_apply,
        Option.map_some, Function.update_of_ne (by simpa using source_ne_last hk)]
      rfl

theorem scoreboardInsert_spec (hmalloc : Fresh malloc) (h : Represents mem t lost)
    (name : List UInt8) (score : Int) : ∃ mem', scoreboardInsert malloc mem name score = some mem' ∧
      Represents mem' (Tetris.scoreboardInsert t name score) lost := by
  have hscores : mem.scores = t.scores := funext fun i => congrArg Prod.snd (h.entry i)
  have hfind : findPlace mem score = Tetris.findPlace t score := by
    unfold findPlace Tetris.findPlace
    rw [hscores]
  cases hplace : Tetris.findPlace t score with
  | none =>
    rw [scoreboardInsert, Tetris.scoreboardInsert, hfind, hplace]
    exact ⟨mem, rfl, h⟩
  | some place =>
    obtain ⟨mem₁, hfree, hnames, hscores₁, howns, hframe⟩ :=
      freeName_spec (i := Fin.last 9) h.owns rfl
    have hfresh : mem₁.blocks (malloc mem₁.blocks) = none := hmalloc _ howns.exists_eq_none
    have hkept : ∀ k, k ≠ Fin.last 9 → (mem.names k).bind (Function.update mem₁.blocks
        (malloc mem₁.blocks) (some name)) = (mem.names k).bind mem.blocks := by
      intro k hk
      have hne : some k ≠ some (Fin.last 9) := by simpa using hk
      apply bind_names_congr
      intro b hb
      rw [Function.update_of_ne, hframe _ hne b hb]
      rintro rfl
      refine howns.eq_none_iff.mp hfresh (some k) ?_
      rwa [Function.update_of_ne hne]
    obtain ⟨mem', hmem'⟩ : ∃ m, m = (copy malloc (shiftDown place 9 nine_lt_ten mem₁) name).1.set
        place (some (copy malloc (shiftDown place 9 nine_lt_ten mem₁) name).2) score := ⟨_, rfl⟩
    have hblocks : mem'.blocks = Function.update mem₁.blocks (malloc mem₁.blocks) (some name) := by
      rw [hmem', Memory.set, copy, blocks_shiftDown]
    have hentry : ∀ k, mem'.entry k =
        if k = place then (some (malloc mem₁.blocks), score) else mem.entry (source place k) := by
      intro k
      have hsame : mem.entry (source place k) = mem₁.entry (source place k) := by
        rw [Memory.entry, Memory.entry, hnames, hscores₁]
      rw [hsame, ← entry_inserted, hmem', copy, blocks_shiftDown]
      rfl
    refine ⟨mem', ?_, ?_, fun k => ?_⟩
    · simp only [scoreboardInsert, hfind, hplace, hfree, Option.bind_eq_bind, Option.bind_some]
      rw [hmem']
      rfl
    · have hnames' : ∀ k, mem'.names k =
          if k = place then some (malloc mem₁.blocks) else mem.names (source place k) := by
        intro k
        have hname := congrArg Prod.fst (hentry k)
        rwa [apply_ite Prod.fst] at hname
      have hempty : (Function.update (owners mem.names lost) (some (Fin.last 9)) [] ∘
          Option.map (source place)) (some place) = [] := by
        rw [Function.comp_apply, Option.map_some, source, if_neg (lt_irrefl _), if_pos rfl,
          Function.update_self]
      rw [owners_inserted place lost _ hnames', hblocks]
      apply (howns.reindex (bijective_source place)).alloc hfresh
      rw [hempty]
    · have hk := hentry k
      rw [entry_scoreboardInsert hplace]
      by_cases hnew : k = place
      · rw [if_pos hnew] at hk
        obtain ⟨hname, hscore⟩ := Prod.ext_iff.mp hk
        rw [if_neg (by omega), if_pos hnew, hblocks]
        dsimp only [Memory.entry] at hname hscore
        rw [hname, hscore, Option.bind_some, Function.update_self]
      · rw [if_neg hnew] at hk
        obtain ⟨hname, hscore⟩ := Prod.ext_iff.mp hk
        dsimp only [Memory.entry] at hname hscore
        rw [hname, hscore, hblocks, hkept _ (source_ne_last hnew), h.entry, source, if_neg hnew,
          if_neg hnew]
        split
        · rfl
        · rfl

/-! ## Loading -/

theorem Represents.exists_name (h : Represents mem t lost) (hfull : ∀ i, (t.names i).isSome)
    (i : Fin 10) : ∃ a, mem.names i = some a := by
  have hname : (mem.names i).bind mem.blocks = t.names i := congrArg Prod.fst (h.entry i)
  have hsome := hfull i
  rw [← hname] at hsome
  exact Option.isSome_iff_exists.mp (Option.isSome_of_isSome_bind hsome)

theorem owns_lost (names : Fin 10 → Option Nat) (lost lost' : List Nat) :
    Function.update (owners names lost) none lost' = owners names lost' := by
  funext i
  cases i with
  | none => rw [Function.update_self]; rfl
  | some i => rw [Function.update_of_ne (by simp)]; rfl

theorem owners_update (names : Fin 10 → Option Nat) (lost : List Nat) (place : Fin 10)
    (name : Option Nat) : owners (Function.update names place name) lost =
      Function.update (owners names lost) (some place) name.toList := by
  funext i
  cases i with
  | none => rw [Function.update_of_ne (by simp)]; rfl
  | some i =>
    rw [owners]
    by_cases hi : i = place
    · rw [hi, Function.update_self, Function.update_self]
    · rw [Function.update_of_ne hi, Function.update_of_ne (by simpa using hi)]
      rfl

/-- A block that has no place. -/
theorem copy_spec (hmalloc : Fresh malloc) (h : Represents mem t lost) (name : List UInt8) :
    (copy malloc mem name).1.blocks (copy malloc mem name).2 = some name ∧
      Represents (copy malloc mem name).1 t ((copy malloc mem name).2 :: lost) := by
  have hfresh := hmalloc mem.blocks h.owns.exists_eq_none
  refine ⟨Function.update_self .., ?_, fun i => ?_⟩
  · have howns := h.owns.alloc (i := none) hfresh name (List.Perm.refl _)
    rwa [owns_lost] at howns
  · rw [← h.entry]
    congr 1
    apply bind_names_congr
    intro a ha
    have hne := ne_of_mem_of_not_mem ha (h.owns.eq_none_iff.mp hfresh (some i))
    exact Function.update_of_ne hne _ _

theorem freeLost_spec {a : Nat} {lost' : List Nat} (h : Represents mem t lost)
    (hperm : lost.Perm (a :: lost')) : ∃ mem', free mem a = some mem' ∧
      mem'.names = mem.names ∧ Represents mem' t lost' := by
  have ha : a ∈ owners mem.names lost none := hperm.mem_iff.mpr List.mem_cons_self
  obtain ⟨value, hvalue⟩ := Option.isSome_iff_exists.mp ((h.owns.isSome a).mpr ⟨none, ha⟩)
  refine ⟨{ mem with blocks := Function.update mem.blocks a none }, ?_, rfl, ?_, fun i => ?_⟩
  · rw [free, hvalue]
    rfl
  · have howns := h.owns.free (i := none) hperm
    rwa [owns_lost] at howns
  · rw [← h.entry]
    congr 1
    apply bind_names_congr
    intro b hb
    have hapart : b ∉ owners mem.names lost none :=
      h.owns.apart (i := some i) hb (by simp)
    exact Function.update_of_ne (ne_of_mem_of_not_mem ha hapart).symm _ _

/-- A name is stored over another one, which is lost. -/
theorem replaceName_spec (hmalloc : Fresh malloc) (h : Represents mem t lost) (place : Fin 10)
    {old : Nat} (hold : mem.names place = some old) (name : List UInt8) (score : Int) :
    let copied := copy malloc mem name
    Represents (copied.1.set place (some copied.2) score) (t.set place (some name) score)
      (old :: lost) := by
  have hfresh := hmalloc mem.blocks h.owns.exists_eq_none
  have hfree := h.owns.eq_none_iff.mp hfresh
  constructor
  · have halloc := h.owns.alloc (i := some place) hfresh name (List.Perm.refl _)
    have hown : owners mem.names lost (some place) = [old] := by
      rw [owners, hold, Option.toList_some]
    rw [hown] at halloc
    have hmove := halloc.move (i := some place) (j := none) (l := [malloc mem.blocks]) (a := old)
      (by simp) (by rw [Function.update_self]; exact List.Perm.swap _ _ _)
    rw [Function.update_idem, Function.update_of_ne (by simp)] at hmove
    dsimp only [Memory.set, copy]
    rw [← owns_lost _ lost, owners_update]
    exact hmove
  · intro i
    rw [Scoreboard.entry_set, ← h.entry]
    dsimp only [Memory.set, copy]
    by_cases hi : i = place
    · rw [if_pos hi, hi, Function.update_self, Function.update_self, Option.bind_some,
        Function.update_self]
    · rw [if_neg hi, Function.update_of_ne hi, Function.update_of_ne hi]
      congr 1
      apply bind_names_congr
      intro b hb
      exact Function.update_of_ne (ne_of_mem_of_not_mem hb (hfree (some i))) _ _

/-- A line that has a name leaves one block without a place: the old name if the line is stored,
and the new one if it is not. -/
theorem storeLine_spec (hmalloc : Fresh malloc) (h : Represents mem t lost)
    (hfull : ∀ i, (t.names i).isSome) {line : Stored} {t' : Scoreboard}
    (hstore : Tetris.storeLine t line = some t') :
    ∃ mem' lost', storeLine malloc mem line = some mem' ∧ Represents mem' t' lost' ∧
      (∀ i, (t'.names i).isSome) ∧ lost'.length = lost.length + line.name.isSome.toNat := by
  obtain ⟨place, name, score⟩ := line
  cases name with
  | none =>
    have hno : ¬ (⟨place, none, score⟩ : Stored).Accepted := fun hacc => by cases hacc.2.1
    rw [Tetris.storeLine, if_neg hno] at hstore
    cases hstore
    exact ⟨mem, lost, rfl, h, hfull, rfl⟩
  | some token =>
    obtain ⟨hread, hcopied⟩ := copy_spec hmalloc h token
    have hacc : (⟨place, some token, score⟩ : Stored).Accepted ↔
        place < scoreboardLen ∧ score ≥ 0 := by simp [Stored.Accepted]
    rw [Tetris.storeLine] at hstore
    simp only [storeLine, copyToken]
    by_cases hok : place < scoreboardLen ∧ score ≥ 0
    · rw [if_pos (hacc.mpr hok)] at hstore
      split at hstore
      · rename_i hin
        cases hstore
        dsimp only at hin
        obtain ⟨old, hold⟩ := h.exists_name hfull ⟨place.toNat, by omega⟩
        have hreplaced := replaceName_spec hmalloc hcopied ⟨place.toNat, by omega⟩ hold token score
        obtain ⟨mem', hfree, -, hfreed⟩ := freeLost_spec hreplaced (List.Perm.swap _ _ _)
        refine ⟨mem', old :: lost, ?_, hfreed, fun i => ?_, rfl⟩
        · rw [if_pos hok, dif_pos hin, hread]
          exact hfree
        · dsimp only [Scoreboard.set]
          rw [Function.update_apply]
          split
          · rfl
          · exact hfull i
      · cases hstore
    · rw [if_neg (hacc.not.mpr hok)] at hstore
      cases hstore
      rw [if_neg hok]
      exact ⟨_, _, rfl, hcopied, hfull, rfl⟩

/-- How many of the lines that `scoreboard_load` reads have a name. -/
def named (n : Nat) (file : List UInt8) : Nat :=
  (getlines n file).countP fun line => (parseLine atoi line).name.isSome

theorem loadLines_spec (hmalloc : Fresh malloc) {n : Nat} {file : List UInt8}
    (h : Represents mem t lost) (hfull : ∀ i, (t.names i).isSome) {t' : Scoreboard}
    (hload : Tetris.loadLines atoi n file t = some t') :
    ∃ mem' lost', loadLines malloc n file mem = some mem' ∧ Represents mem' t' lost' ∧
      lost'.length = lost.length + named n file := by
  induction n generalizing file mem t lost with
  | zero =>
    cases hload
    exact ⟨mem, lost, rfl, h, rfl⟩
  | succ n ih =>
    rw [Tetris.loadLines] at hload
    rw [loadLines, named, getlines]
    cases hline : getline file with
    | none =>
      rw [hline] at hload
      cases hload
      exact ⟨mem, lost, rfl, h, rfl⟩
    | some read =>
      obtain ⟨line, rest⟩ := read
      rw [hline] at hload
      obtain ⟨t₁, hstore, hload⟩ := Option.bind_eq_some_iff.mp hload
      obtain ⟨mem₁, lost₁, hstore₁, h₁, hfull₁, hlength₁⟩ := storeLine_spec hmalloc h hfull hstore
      obtain ⟨mem₂, lost₂, hload₂, h₂, hlength₂⟩ := ih h₁ hfull₁ hload
      refine ⟨mem₂, lost₂, ?_, h₂, ?_⟩
      · dsimp only
        rw [hstore₁, Option.bind_some, hload₂]
      · rw [hlength₂, hlength₁, named, List.countP_cons, Nat.add_assoc]
        cases (parseLine atoi line).name <;> simp [Nat.add_comm]

/-! ## A whole session -/

def namedLines : Option (List UInt8) → Nat
  | none => 0
  | some file => named 10 file

theorem represents_blank : Represents blank Tetris.blank [] where
  owns := by
    have hnone : owners blank.names [] = fun _ => [] := funext fun i => by cases i <;> rfl
    rw [hnone]
    exact owns_empty
  entry _ := rfl

theorem inserts_spec (hmalloc : Fresh malloc) (h : Represents mem t lost) (is : List Nat) :
    ∃ mem', is.foldlM (fun mem (i : Nat) => scoreboardInsert malloc mem player (i * 100)) mem =
        some mem' ∧
      Represents mem' (is.foldl (fun t (i : Nat) => Tetris.scoreboardInsert t player (i * 100)) t)
        lost := by
  induction is generalizing mem t with
  | nil => exact ⟨mem, rfl, h⟩
  | cons i is ih =>
    obtain ⟨mem₁, hinsert, h₁⟩ := scoreboardInsert_spec hmalloc h player (i * 100)
    obtain ⟨mem₂, hinserts, h₂⟩ := ih h₁
    refine ⟨mem₂, ?_, h₂⟩
    rw [List.foldlM_cons, hinsert]
    exact hinserts

theorem scoreboardInit_spec (hmalloc : Fresh malloc) {file : Option (List UInt8)}
    (hinit : Tetris.scoreboardInit atoi file = some t) :
    ∃ mem lost, scoreboardInit malloc file = some mem ∧ Represents mem t lost ∧
      lost.length = namedLines file := by
  obtain ⟨mem₁, hinserts, h₁⟩ := inserts_spec hmalloc represents_blank (List.range 10)
  have hfull : ∀ i, (defaults.names i).isSome := fun i => by
    obtain ⟨name, hname, -⟩ := (filled_defaults isField_player).names i
    rw [hname]
    rfl
  cases file with
  | none =>
    cases hinit
    refine ⟨mem₁, [], ?_, h₁, rfl⟩
    rw [scoreboardInit, hinserts]
    rfl
  | some file =>
    obtain ⟨mem₂, lost, hload, h₂, hlength⟩ := loadLines_spec hmalloc h₁ hfull hinit
    refine ⟨mem₂, lost, ?_, h₂, ?_⟩
    · rw [scoreboardInit, hinserts]
      exact hload
    · rw [hlength, List.length_nil, Nat.zero_add, namedLines]

theorem Represents.table_eq (h : Represents mem t lost) : table mem = some t := by
  have hall : ∀ i, (mem.names i).all fun a => (mem.blocks a).isSome := by
    intro i
    cases hname : mem.names i with
    | none => rfl
    | some a => exact (h.owns.isSome a).mpr ⟨some i, by simp [owners, hname]⟩
  rw [table, if_pos hall]
  exact congrArg some (Scoreboard.ext_entry h.entry)

theorem freeNames_spec {own : Option (Fin 10) → List Nat} (howns : Owns mem.blocks own)
    (hlost : own none = lost) {is : List (Fin 10)} (hnodup : is.Nodup)
    (hown : ∀ i, own (some i) = if i ∈ is then (mem.names i).toList else []) :
    ∃ mem', is.foldlM freeName mem = some mem' ∧
      Owns mem'.blocks (owners (fun _ => none) lost) := by
  induction is generalizing mem own with
  | nil =>
    have hrest : own = owners (fun _ => none) lost := by
      funext i
      cases i with
      | none => exact hlost
      | some i => exact hown i
    exact ⟨mem, rfl, hrest ▸ howns⟩
  | cons i is ih =>
    obtain ⟨hnot, hnodup⟩ := List.nodup_cons.mp hnodup
    obtain ⟨mem₁, hfree, hnames, -, howns₁, -⟩ := freeName_spec howns
      ((hown i).trans (if_pos List.mem_cons_self))
    obtain ⟨mem₂, hfrees, howns₂⟩ := ih howns₁
      (by rw [Function.update_of_ne (by simp)]; exact hlost) hnodup fun j => by
        by_cases hj : j = i
        · rw [hj, Function.update_self, if_neg hnot]
        · rw [Function.update_of_ne (by simpa using hj), hown, hnames]
          simp only [List.mem_cons, hj, false_or]
    refine ⟨mem₂, ?_, howns₂⟩
    rw [List.foldlM_cons, hfree]
    exact hfrees

end Inserting

/-- A session that comes to its end with the names as values does so with the names as blocks, and
writes the same file. No name is read or freed that is not allocated, and what is not freed in the
end is one block for each line of the file that has a name. -/
theorem named_lines_are_lost {malloc : Store (List UInt8) → Nat} (hmalloc : Fresh malloc)
    (file : Option (List UInt8)) (session : Session) (hmain : (Tetris.main file session).isSome) :
    ∃ file' mem, ∃ lost : List Nat, Tetris.main file session = some file' ∧
      main malloc file session = some (file', mem) ∧ lost.Nodup ∧
      (∀ a, (mem.blocks a).isSome ↔ a ∈ lost) ∧ lost.length = namedLines file := by
  obtain ⟨file', hfile'⟩ := Option.isSome_iff_exists.mp hmain
  have hsession := hfile'
  unfold Tetris.main at hsession
  obtain ⟨t, hinit, hsession⟩ := Option.bind_eq_some_iff.mp hsession
  obtain ⟨g, hgame, hsession⟩ := Option.bind_eq_some_iff.mp hsession
  obtain ⟨mem₁, lost, hinit₁, h₁, hlength⟩ := scoreboardInit_spec hmalloc hinit
  obtain ⟨mem₂, hinsert, h₂⟩ := scoreboardInsert_spec hmalloc h₁ (readName session.input) g.score
  obtain ⟨mem₃, hfrees, howns⟩ := freeNames_spec h₂.owns rfl (List.nodup_finRange 10)
    fun i => (if_pos (List.mem_finRange i)).symm
  by_cases hover : g.isGameOver
  · rw [if_pos hover] at hsession
    cases hsession
    refine ⟨_, mem₃, lost, hfile', ?_, howns.nodup none, fun a => ?_, hlength⟩
    · rw [main, hinit₁, hgame]
      simp only [Option.bind_eq_bind, Option.bind_some, hover, if_true, hinsert]
      rw [scoreboardFree, scoreboardSave, h₂.table_eq, hfrees]
      cases session.saves <;> rfl
    · rw [howns.isSome]
      constructor
      · rintro ⟨i, ha⟩
        cases i with
        | none => exact ha
        | some i => exact absurd ha List.not_mem_nil
      · exact fun ha => ⟨none, ha⟩
  · rw [if_neg hover] at hsession
    cases hsession

/-- One line that is stored and one without a score. -/
def twoLines : List UInt8 := ascii "1\t\tann\t\t500\n2\t\tbob\n"

theorem named_lines_are_lost_of_two :
    ∃ file' mem, ∃ lost : List Nat,
      Tetris.main (some twoLines) ⟨ascii "eve\n", 0, tower, true⟩ = some file' ∧
      main anyFree (some twoLines) ⟨ascii "eve\n", 0, tower, true⟩ = some (file', mem) ∧
      lost.Nodup ∧ (∀ a, (mem.blocks a).isSome ↔ a ∈ lost) ∧
      lost.length = namedLines (some twoLines) :=
  named_lines_are_lost fresh_anyFree (some twoLines) ⟨ascii "eve\n", 0, tower, true⟩
    (by decide +kernel)

example : namedLines (some twoLines) = 2 := by decide +kernel

end Homework.Tetris.Names
