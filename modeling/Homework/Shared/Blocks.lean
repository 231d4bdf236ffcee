import Mathlib.Algebra.BigOperators.Group.Finset.Basic
import Mathlib.Data.Fintype.EquivFin
import Mathlib.Data.List.Nodup
import Mathlib.Data.Set.Finite.Lattice
import Mathlib.Logic.Function.Basic

/-!
# Blocks and their owners

A store has a block at every address that is allocated. Each of the owners has some of them as a
list of addresses, and every block has one owner, who has it once. So a block that an owner gives
back is gone for nobody else, and what an owner does to its blocks changes no other's.

This module names no program.
-/

namespace Homework.Blocks

set_option autoImplicit false

universe u v
variable {α : Type u}

/-- What is in the blocks. -/
abbrev Store (α : Type u) := Nat → Option α

/-! ## Reading -/

def addresses (cells : List (Nat × α)) : List Nat := cells.map Prod.fst

def contents (cells : List (Nat × α)) : List α := cells.map Prod.snd

@[simp] theorem addresses_cons (cell : Nat × α) (cells : List (Nat × α)) :
    addresses (cell :: cells) = cell.1 :: addresses cells := rfl

@[simp] theorem contents_cons (cell : Nat × α) (cells : List (Nat × α)) :
    contents (cell :: cells) = cell.2 :: contents cells := rfl

@[simp] theorem length_addresses (cells : List (Nat × α)) :
    (addresses cells).length = cells.length := List.length_map ..

@[simp] theorem length_contents (cells : List (Nat × α)) :
    (contents cells).length = cells.length := List.length_map ..

theorem addresses_append (cells cells' : List (Nat × α)) :
    addresses (cells ++ cells') = addresses cells ++ addresses cells' := List.map_append

theorem contents_append (cells cells' : List (Nat × α)) :
    contents (cells ++ cells') = contents cells ++ contents cells' := List.map_append

/-- The blocks at these addresses with what is in them, if all of them are allocated. -/
def load (h : Store α) : List Nat → Option (List (Nat × α))
  | [] => some []
  | a :: as => do
    let value ← h a
    let cells ← load h as
    return (a, value) :: cells

def Holds (h : Store α) (cells : List (Nat × α)) : Prop := ∀ c ∈ cells, h c.1 = some c.2

section Reading
variable {h h' : Store α} {cells cells' : List (Nat × α)}

theorem holds_cons {cell : Nat × α} :
    Holds h (cell :: cells) ↔ h cell.1 = some cell.2 ∧ Holds h cells := List.forall_mem_cons

theorem Holds.of_subset (hcells : Holds h cells) (hsub : cells' ⊆ cells) : Holds h cells' :=
  fun c hc => hcells c (hsub hc)

theorem Holds.congr (hcells : Holds h cells) (hsame : ∀ a ∈ addresses cells, h' a = h a) :
    Holds h' cells :=
  fun c hc => (hsame c.1 (List.mem_map_of_mem hc)).trans (hcells c hc)

theorem Holds.isSome (hcells : Holds h cells) {a : Nat} (ha : a ∈ addresses cells) :
    (h a).isSome := by
  obtain ⟨c, hc, rfl⟩ := List.mem_map.mp ha
  rw [hcells c hc]
  rfl

theorem Holds.update (hcells : Holds h cells) {a : Nat} (ha : a ∉ addresses cells)
    (value : Option α) : Holds (Function.update h a value) cells :=
  hcells.congr fun _ hb => Function.update_of_ne (ne_of_mem_of_not_mem hb ha) _ _

/-- Cells are the same where their addresses are. -/
theorem Holds.subset_of_addresses (hcells : Holds h cells) (hcells' : Holds h cells')
    (hsub : ∀ a ∈ addresses cells, a ∈ addresses cells') : cells ⊆ cells' := by
  intro c hc
  obtain ⟨c', hc', haddress⟩ := List.mem_map.mp (hsub c.1 (List.mem_map_of_mem hc))
  have hvalue := hcells' c' hc'
  rw [haddress, hcells c hc] at hvalue
  have heq : c' = c := Prod.ext haddress (Option.some.inj hvalue).symm
  exact heq ▸ hc'

theorem Holds.load_eq (hcells : Holds h cells) : load h (addresses cells) = some cells := by
  induction cells with
  | nil => rfl
  | cons cell cells ih =>
    obtain ⟨hcell, hrest⟩ := holds_cons.mp hcells
    rw [addresses_cons, load, hcell, ih hrest]
    rfl

end Reading

/-! ## Owners -/

/-- Every block that is allocated has one owner. -/
structure Owns {ι : Type v} (h : Store α) (own : ι → List Nat) : Prop where
  nodup : ∀ i, (own i).Nodup
  unique : ∀ a i j, a ∈ own i → a ∈ own j → i = j
  isSome : ∀ a, (h a).isSome ↔ ∃ i, a ∈ own i

namespace Owns
variable {ι : Type v} {h : Store α} {own : ι → List Nat} {i : ι} {a : Nat} {l : List Nat}

theorem eq_none_iff (howns : Owns h own) : h a = none ↔ ∀ i, a ∉ own i := by
  rw [← Option.not_isSome_iff_eq_none, howns.isSome, not_exists]

/-- There is always a block left to allocate. -/
theorem exists_eq_none [Finite ι] (howns : Owns h own) : ∃ a, h a = none := by
  have hfinite : (⋃ i, {a | a ∈ own i}).Finite :=
    Set.finite_iUnion fun i => List.finite_toSet (own i)
  obtain ⟨a, ha⟩ := hfinite.exists_notMem
  rw [Set.mem_iUnion, not_exists] at ha
  exact ⟨a, howns.eq_none_iff.mpr ha⟩

theorem apart (howns : Owns h own) {b : Nat} (hb : b ∈ own i) {j : ι} (hj : j ≠ i) :
    b ∉ own j := fun hb' => hj (howns.unique b j i hb' hb)

theorem write (howns : Owns h own) (ha : a ∈ own i) (value : α) :
    Owns (Function.update h a (some value)) own where
  nodup := howns.nodup
  unique := howns.unique
  isSome b := by
    by_cases hb : b = a
    · subst b
      rw [Function.update_self]
      exact iff_of_true rfl ⟨i, ha⟩
    · rw [Function.update_of_ne hb]
      exact howns.isSome b

variable [DecidableEq ι]

/-- One owner comes to have other blocks, of which the others have none. -/
theorem update (howns : Owns h own) {h' : Store α} (hl : l.Nodup)
    (hsome : ∀ b, (h' b).isSome ↔ b ∈ l ∨ ∃ j, j ≠ i ∧ b ∈ own j)
    (hapart : ∀ b ∈ l, ∀ j, j ≠ i → b ∉ own j) : Owns h' (Function.update own i l) where
  nodup j := by
    by_cases hj : j = i
    · rw [hj, Function.update_self]
      exact hl
    · rw [Function.update_of_ne hj]
      exact howns.nodup j
  unique b j k hbj hbk := by
    by_cases hj : j = i
    · subst j
      by_contra hk
      rw [Function.update_self] at hbj
      rw [Function.update_of_ne (Ne.symm hk)] at hbk
      exact hapart b hbj k (Ne.symm hk) hbk
    · rw [Function.update_of_ne hj] at hbj
      by_cases hk : k = i
      · subst k
        rw [Function.update_self] at hbk
        exact absurd hbj (hapart b hbk j hj)
      · rw [Function.update_of_ne hk] at hbk
        exact howns.unique b j k hbj hbk
  isSome b := by
    rw [hsome]
    constructor
    · rintro (hb | ⟨j, hj, hb⟩)
      · exact ⟨i, by rwa [Function.update_self]⟩
      · exact ⟨j, by rwa [Function.update_of_ne hj]⟩
    · rintro ⟨j, hb⟩
      by_cases hj : j = i
      · subst j
        rw [Function.update_self] at hb
        exact Or.inl hb
      · rw [Function.update_of_ne hj] at hb
        exact Or.inr ⟨j, hj, hb⟩

theorem isSome_iff (howns : Owns h own) (i : ι) (b : Nat) :
    (h b).isSome ↔ b ∈ own i ∨ ∃ j, j ≠ i ∧ b ∈ own j := by
  rw [howns.isSome]
  constructor
  · rintro ⟨j, hb⟩
    by_cases hj : j = i
    · exact Or.inl (hj ▸ hb)
    · exact Or.inr ⟨j, hj, hb⟩
  · rintro (hb | ⟨j, -, hb⟩)
    · exact ⟨i, hb⟩
    · exact ⟨j, hb⟩

theorem perm (howns : Owns h own) (hperm : l.Perm (own i)) : Owns h (Function.update own i l) :=
  howns.update (hperm.nodup_iff.mpr (howns.nodup i))
    (fun b => (howns.isSome_iff i b).trans (or_congr_left hperm.mem_iff.symm))
    (fun _ hb _ hj => howns.apart (hperm.mem_iff.mp hb) hj)

theorem alloc (howns : Owns h own) (ha : h a = none) (value : α) (hperm : l.Perm (a :: own i)) :
    Owns (Function.update h a (some value)) (Function.update own i l) := by
  have hfree := howns.eq_none_iff.mp ha
  refine howns.update (hperm.nodup_iff.mpr (List.nodup_cons.mpr ⟨hfree i, howns.nodup i⟩)) ?_ ?_
  · intro b
    rw [hperm.mem_iff, List.mem_cons]
    by_cases hb : b = a
    · subst b
      rw [Function.update_self]
      exact iff_of_true rfl (Or.inl (Or.inl rfl))
    · rw [Function.update_of_ne hb, howns.isSome_iff i, or_iff_right hb]
  · intro b hb j hj
    rcases List.mem_cons.mp (hperm.mem_iff.mp hb) with rfl | hb
    · exact hfree j
    · exact howns.apart hb hj

theorem free (howns : Owns h own) (hperm : (own i).Perm (a :: l)) :
    Owns (Function.update h a none) (Function.update own i l) := by
  obtain ⟨hnot, hl⟩ := List.nodup_cons.mp (hperm.nodup_iff.mp (howns.nodup i))
  have ha : a ∈ own i := hperm.mem_iff.mpr List.mem_cons_self
  have hsub : ∀ b ∈ l, b ∈ own i := fun b hb => hperm.mem_iff.mpr (List.mem_cons_of_mem a hb)
  refine howns.update hl ?_ fun b hb _ hj => howns.apart (hsub b hb) hj
  intro b
  by_cases hb : b = a
  · subst b
    rw [Function.update_self]
    refine iff_of_false (by simp) ?_
    rintro (hmem | ⟨j, hj, hmem⟩)
    · exact hnot hmem
    · exact howns.apart ha hj hmem
  · rw [Function.update_of_ne hb, howns.isSome_iff i, hperm.mem_iff, List.mem_cons,
      or_iff_right hb]

/-- A block changes its owner. -/
theorem move (howns : Owns h own) {j : ι} (hj : j ≠ i) (hperm : (own i).Perm (a :: l)) :
    Owns h (Function.update (Function.update own i l) j (a :: own j)) := by
  have ha : a ∈ own i := hperm.mem_iff.mpr List.mem_cons_self
  obtain ⟨value, hvalue⟩ := Option.isSome_iff_exists.mp ((howns.isSome a).mpr ⟨i, ha⟩)
  have hmoved := (howns.free hperm).alloc (i := j) (Function.update_self ..) value
    (List.Perm.refl _)
  rwa [Function.update_idem, ← hvalue, Function.update_eq_self, Function.update_of_ne hj] at hmoved

omit [DecidableEq ι] in
theorem reindex (howns : Owns h own) {σ : ι → ι} (hσ : Function.Bijective σ) :
    Owns h (own ∘ σ) where
  nodup i := howns.nodup (σ i)
  unique b i j hi hj := hσ.injective (howns.unique b (σ i) (σ j) hi hj)
  isSome b := (howns.isSome b).trans hσ.surjective.exists

end Owns

theorem sum_length_update {ι : Type v} [Fintype ι] [DecidableEq ι] (own : ι → List Nat) (i : ι)
    (l : List Nat) : ∑ j, (Function.update own i l j).length + (own i).length =
      ∑ j, (own j).length + l.length := by
  have hrest : ∑ j ∈ Finset.univ.erase i, (Function.update own i l j).length =
      ∑ j ∈ Finset.univ.erase i, (own j).length := by
    apply Finset.sum_congr rfl
    intro j hj
    rw [Function.update_of_ne (Finset.ne_of_mem_erase hj)]
  rw [← Finset.add_sum_erase Finset.univ (fun j => (Function.update own i l j).length)
    (Finset.mem_univ i), ← Finset.add_sum_erase Finset.univ (fun j => (own j).length)
    (Finset.mem_univ i), hrest, Function.update_self]
  omega

/-! ## Where to allocate -/

/-- The address is free, if there is a free one. -/
def Fresh (malloc : Store α → Nat) : Prop :=
  ∀ h : Store α, (∃ a, h a = none) → h (malloc h) = none

open Classical in
noncomputable def anyFree (h : Store α) : Nat := if hfree : ∃ a, h a = none then hfree.choose else 0

theorem fresh_anyFree : Fresh (anyFree : Store α → Nat) := by
  intro h hfree
  rw [anyFree, dif_pos hfree]
  exact hfree.choose_spec

theorem owns_empty {ι : Type v} : Owns (fun _ => none : Store α) (fun _ : ι => []) where
  nodup _ := List.nodup_nil
  unique _ _ _ ha := absurd ha List.not_mem_nil
  isSome a := by simp

end Homework.Blocks
