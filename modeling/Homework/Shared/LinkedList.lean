import Homework.Shared.Blocks

/-!
# Linked lists in a heap

A heap is a store of cells. A list begins at an address, 0 being the empty one, and each of its
cells has the address of the next one. What is allocated is given as a list of addresses, of which
a program can take apart what belongs to which list.

This module names no program.
-/

namespace Homework.LinkedList

set_option autoImplicit false

open Blocks

universe u
variable {α : Type u}

structure Cell (α : Type u) where
  value : α
  next : Nat
  deriving DecidableEq, Repr

abbrev Heap (α : Type u) := Store (Cell α)

/-- The heap without the addresses in it. -/
def valuesIn (h : Heap α) : Store α := fun a => (h a).map Cell.value

/-- From this address on there are these cells, each with its address. -/
inductive Chain (h : Heap α) : Nat → List (Nat × α) → Prop
  | nil : Chain h 0 []
  | cons {a next : Nat} {value : α} {cells : List (Nat × α)} (ha : a ≠ 0)
      (hcell : h a = some ⟨value, next⟩) (htail : Chain h next cells) :
      Chain h a ((a, value) :: cells)

section Chains
variable {h h' : Heap α} {a b : Nat} {cells cells' : List (Nat × α)}

theorem Chain.eq_nil (hchain : Chain h 0 cells) : cells = [] := by
  cases hchain with
  | nil => rfl
  | cons ha => exact absurd rfl ha

theorem Chain.unique (hchain : Chain h a cells) (hchain' : Chain h a cells') : cells = cells' := by
  induction hchain generalizing cells' with
  | nil => exact hchain'.eq_nil.symm
  | cons ha hcell _ ih =>
    cases hchain' with
    | nil => exact absurd rfl ha
    | cons _ hcell' htail' =>
      cases hcell.symm.trans hcell'
      rw [ih htail']

theorem Chain.holds (hchain : Chain h a cells) : Holds (valuesIn h) cells := by
  induction hchain with
  | nil => exact fun _ hc => absurd hc List.not_mem_nil
  | cons _ hcell _ ih =>
    refine holds_cons.mpr ⟨?_, ih⟩
    rw [valuesIn, hcell]
    rfl

theorem Chain.isSome (hchain : Chain h a cells) (hb : b ∈ addresses cells) : (h b).isSome := by
  have hvalue := hchain.holds.isSome hb
  rwa [valuesIn, Option.isSome_map] at hvalue

theorem Chain.congr (hchain : Chain h a cells) (hsame : ∀ b ∈ addresses cells, h' b = h b) :
    Chain h' a cells := by
  induction hchain with
  | nil => exact .nil
  | cons ha hcell _ ih =>
    rw [addresses_cons, List.forall_mem_cons] at hsame
    exact .cons ha (hsame.1.trans hcell) (ih hsame.2)

/-- From each of its cells on there is a part of the list. -/
theorem Chain.exists_suffix (hchain : Chain h a cells) (hb : b ∈ addresses cells) :
    ∃ cells', cells' <:+ cells ∧ Chain h b cells' := by
  induction hchain with
  | nil => cases hb
  | cons ha hcell htail ih =>
    rcases List.mem_cons.mp hb with rfl | hb
    · exact ⟨_, List.suffix_rfl, .cons ha hcell htail⟩
    · obtain ⟨cells', hsuffix, hchain⟩ := ih hb
      exact ⟨cells', hsuffix.trans (List.suffix_cons ..), hchain⟩

/-- A list that comes to an end does not come back to a cell. -/
theorem Chain.nodup (hchain : Chain h a cells) : (addresses cells).Nodup := by
  induction hchain with
  | nil => exact List.nodup_nil
  | cons ha hcell htail ih =>
    refine List.nodup_cons.mpr ⟨fun hback => ?_, ih⟩
    obtain ⟨cells', hsuffix, hchain'⟩ := htail.exists_suffix hback
    have heq := hchain'.unique (.cons ha hcell htail)
    have hle := hsuffix.length_le
    rw [heq, List.length_cons] at hle
    omega

end Chains

/-- These are the addresses of the cells that are allocated, all of which one owner has. -/
abbrev Owned (h : Heap α) (live : List Nat) : Prop := Owns h fun _ : Unit => live

section Ownership
variable {h : Heap α} {a : Nat} {live live' : List Nat}

theorem update_unit (live live' : List Nat) :
    Function.update (fun _ : Unit => live) () live' = fun _ => live' :=
  funext fun _ => Function.update_self ..

theorem Owned.mem_iff (howned : Owned h live) : (h a).isSome ↔ a ∈ live :=
  (howned.isSome a).trans (exists_const Unit)

theorem Owned.perm (howned : Owned h live) (hperm : live.Perm live') : Owned h live' := by
  have hsame := Owns.perm (i := ()) howned hperm.symm
  rwa [update_unit] at hsame

theorem Owned.eq_empty (howned : Owned h []) : h = fun _ => none := by
  funext a
  have hnone := Owned.mem_iff (a := a) howned
  simpa using hnone

theorem Owned.alloc (howned : Owned h live) (ha : h a = none) (cell : Cell α) :
    Owned (Function.update h a (some cell)) (a :: live) := by
  have halloc := Owns.alloc (i := ()) howned ha cell (List.Perm.refl _)
  rwa [update_unit] at halloc

theorem Owned.free (howned : Owned h (a :: live)) : Owned (Function.update h a none) live := by
  have hfree := Owns.free (i := ()) howned (List.Perm.refl _)
  rwa [update_unit] at hfree

end Ownership

end Homework.LinkedList
