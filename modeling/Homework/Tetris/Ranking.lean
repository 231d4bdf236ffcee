import Mathlib.Data.List.FinRange
import Homework.Shared.SortedInsert
import Homework.Tetris.Scoreboard

/-!
# The ranking

`scoreboard_insert` puts a new entry before the first one whose score is not larger, and drops
what has been pushed off the end. So the table holds the ten best of everything that was ever
in it or offered to it.
-/

namespace Homework.Tetris

set_option autoImplicit false

abbrev Entry := Option (List UInt8) × Int

def entries (t : Scoreboard) : List Entry := (List.finRange 10).map t.entry

def AtLeast (a b : Entry) : Prop := b.2 ≤ a.2

instance : DecidableRel AtLeast := fun a b => inferInstanceAs (Decidable (b.2 ≤ a.2))

instance : IsTrans Entry AtLeast := ⟨fun _ _ _ hab hbc => Int.le_trans hbc hab⟩

instance : Std.Total AtLeast := ⟨fun a b => Int.le_total b.2 a.2⟩

def Sorted (t : Scoreboard) : Prop := ∀ i j, i ≤ j → t.scores j ≤ t.scores i

/-- A call of `scoreboard_insert`. -/
structure Win where
  name : List UInt8
  score : Int

def Win.entry (win : Win) : Entry := (some win.name, win.score)

def insertWin (t : Scoreboard) (win : Win) : Scoreboard := scoreboardInsert t win.name win.score

@[simp] theorem length_entries (t : Scoreboard) : (entries t).length = 10 := by simp [entries]

theorem getElem_entries (t : Scoreboard) {k : Nat} (hk : k < (entries t).length) :
    (entries t)[k] = t.entry ⟨k, by simpa using hk⟩ := by simp [entries]

theorem pairwise_entries_iff (t : Scoreboard) : (entries t).Pairwise AtLeast ↔ Sorted t := by
  rw [List.pairwise_iff_getElem]
  constructor
  · intro h i j hij
    by_cases heq : i = j
    · rw [heq]
    · have hle := h i j (by simp) (by simp) (by omega)
      rwa [getElem_entries, getElem_entries] at hle
  · intro h i j hi hj hij
    rw [getElem_entries, getElem_entries]
    exact h _ _ (Nat.le_of_lt hij)

theorem findPlace_some {t : Scoreboard} {score : Int} {place : Fin 10}
    (h : findPlace t score = some place) :
    t.scores place ≤ score ∧ ∀ i < place, score < t.scores i := by
  obtain ⟨hplace, before, after, hsplit, hbefore⟩ := List.find?_eq_some_iff_append.mp h
  refine ⟨by simpa using hplace, fun i hi => ?_⟩
  have hlen : before.length = place := by
    have hget : (List.finRange 10)[before.length]? = some place := by simp [hsplit]
    rw [List.getElem?_eq_some_iff] at hget
    obtain ⟨_, hget⟩ := hget
    rw [← hget]
    simp
  have hmem : i ∈ before := by
    have hget : (List.finRange 10)[i.val]? = some i := by simp
    rw [hsplit, List.getElem?_append_left (by omega)] at hget
    exact List.mem_of_getElem? hget
  simpa using hbefore i hmem

theorem findPlace_none {t : Scoreboard} {score : Int} (h : findPlace t score = none) (i : Fin 10) :
    score < t.scores i := by
  have hfind := List.find?_eq_none.mp h i (List.mem_finRange i)
  simpa using hfind

theorem entries_insertWin_of_place {t : Scoreboard} {win : Win} {place : Fin 10}
    (hplace : findPlace t win.score = some place) : entries (insertWin t win) =
      ((entries t).take place ++ win.entry :: (entries t).drop place).take 10 := by
  have hlen : ((entries t).take place).length = place := by
    rw [List.length_take, length_entries]
    omega
  apply List.ext_getElem
  · simp
    omega
  · intro k hk hk'
    have hk10 : k < 10 := by simpa using hk
    rw [getElem_entries, insertWin, entry_scoreboardInsert hplace, List.getElem_take]
    by_cases hfront : k < place.val
    · rw [if_pos (Fin.lt_def.mpr hfront), List.getElem_append_left (by omega), List.getElem_take,
        getElem_entries]
    · rw [if_neg fun h => hfront (Fin.lt_def.mp h), List.getElem_append_right (by omega),
        List.getElem_cons]
      by_cases heq : k = place.val
      · rw [if_pos (Fin.ext heq), dif_pos (by omega)]
        rfl
      · rw [if_neg fun h => heq (congrArg Fin.val h), dif_neg (by omega), List.getElem_drop,
          getElem_entries]
        apply congrArg t.entry
        apply Fin.ext
        dsimp only
        omega

theorem entries_insertWin (t : Scoreboard) (win : Win) :
    entries (insertWin t win) = ((entries t).orderedInsert AtLeast win.entry).take 10 := by
  cases hplace : findPlace t win.score with
  | none =>
    have hbefore : ∀ b ∈ entries t, ¬ AtLeast win.entry b := by
      intro b hb
      obtain ⟨i, -, rfl⟩ := List.mem_map.mp hb
      exact Int.not_le.mpr (findPlace_none hplace i)
    have hinsert := @orderedInsert_append _ AtLeast _ win.entry _ [] hbefore
      (fun b hb => nomatch hb)
    rw [List.append_nil] at hinsert
    rw [hinsert, List.take_left' (length_entries t), insertWin, scoreboardInsert, hplace]
  | some place =>
    obtain ⟨hle, hlt⟩ := findPlace_some hplace
    have hbefore : ∀ b ∈ (entries t).take place, ¬ AtLeast win.entry b := by
      intro b hb
      obtain ⟨k, hk, rfl⟩ := List.mem_iff_getElem.mp hb
      rw [List.length_take] at hk
      rw [List.getElem_take, getElem_entries]
      exact Int.not_le.mpr (hlt ⟨k, by omega⟩ (by simp only [Fin.lt_def]; omega))
    have hafter : ∀ b ∈ ((entries t).drop place).head?, AtLeast win.entry b := by
      intro b hb
      rw [List.head?_drop, List.getElem?_eq_getElem (by simp), getElem_entries] at hb
      cases hb
      exact hle
    have hinsert := orderedInsert_append hbefore hafter
    rw [List.take_append_drop] at hinsert
    rw [entries_insertWin_of_place hplace, hinsert]

theorem insertWin_sorted {t : Scoreboard} (ht : Sorted t) (win : Win) :
    Sorted (insertWin t win) := by
  rw [← pairwise_entries_iff] at ht ⊢
  rw [entries_insertWin]
  exact (List.Pairwise.orderedInsert win.entry _ ht).take

/-- Cutting to ten after every call leaves what cutting once at the end would leave. -/
theorem entries_foldl_insertWin (t : Scoreboard) (wins : List Win) :
    entries (wins.foldl insertWin t) =
      (insertAll AtLeast (wins.map Win.entry) (entries t)).take 10 := by
  induction wins using List.reverseRecOn with
  | nil => exact (List.take_of_length_le (Nat.le_of_eq (length_entries t))).symm
  | append_singleton wins win ih =>
    rw [List.foldl_append, List.foldl_cons, List.foldl_nil, entries_insertWin, ih,
      take_orderedInsert_take, List.map_append, List.map_cons, List.map_nil, insertAll_concat]

/-! ## The ten best -/

/-- Everything that was ever offered to the table, in the order of time. The first table is
what its entries make when they come from the last to the first. -/
def offered (t : Scoreboard) (wins : List Win) : List Entry :=
  (entries t).reverse ++ wins.map Win.entry

/-- Of two entries with their times, the first has the larger score, or the same score and
came later. -/
def RanksBefore (a b : Entry × Nat) : Prop :=
  b.1.2 < a.1.2 ∨ b.1.2 = a.1.2 ∧ b.2 < a.2

theorem ranksBefore_of_laterFirst {a b : Entry × Nat} (h : LaterFirst AtLeast a b) :
    RanksBefore a b := by
  obtain ⟨hle, hlevel⟩ := h
  unfold AtLeast at hle hlevel
  unfold RanksBefore
  by_cases heq : b.1.2 = a.1.2
  · exact Or.inr ⟨heq, hlevel (by omega)⟩
  · exact Or.inl (by omega)

/-- The table holds the first ten of everything offered, by falling score and, where scores
are equal, the later one first. -/
theorem table_holds_ten_best {t : Scoreboard} (ht : Sorted t) (wins : List Win) :
    Sorted (wins.foldl insertWin t) ∧ ∃ ranked : List (Entry × Nat),
      ranked.Perm (offered t wins).zipIdx ∧ ranked.Pairwise RanksBefore ∧
        entries (wins.foldl insertWin t) = (ranked.map Prod.fst).take 10 := by
  obtain ⟨ranked, hperm, hranked, hmap⟩ := exists_laterFirst (r := AtLeast) (offered t wins)
  refine ⟨?_, ranked, hperm, hranked.imp ranksBefore_of_laterFirst, ?_⟩
  · exact List.foldlRecOn wins insertWin ht fun t ht win _ => insertWin_sorted ht win
  · rw [entries_foldl_insertWin, hmap, offered, insertAll_append,
      insertAll_reverse ((pairwise_entries_iff t).mpr ht)]

theorem sorted_blank : Sorted blank := fun _ _ _ => Int.le_refl _

theorem table_holds_ten_best_of_two_wins :
    Sorted ([⟨ascii "ann", 700⟩, ⟨ascii "bob", 700⟩].foldl insertWin blank) ∧
      ∃ ranked : List (Entry × Nat),
        ranked.Perm (offered blank [⟨ascii "ann", 700⟩, ⟨ascii "bob", 700⟩]).zipIdx ∧
          ranked.Pairwise RanksBefore ∧
          entries ([⟨ascii "ann", 700⟩, ⟨ascii "bob", 700⟩].foldl insertWin blank) =
            (ranked.map Prod.fst).take 10 :=
  table_holds_ten_best sorted_blank _

end Homework.Tetris
