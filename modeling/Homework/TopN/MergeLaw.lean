import Mathlib.Data.Finset.Card
import Homework.TopN.Values

/-!
# What a merge leaves

The loop of a merge builds the union of both lists, with the values of common keys added up.
The last call then cuts the union, which is sorted, to the capacity of the destination.
-/

namespace Homework.TopN

set_option autoImplicit false

universe u
variable {κ : Type u} [DecidableEq κ]

def unionKeys (dst src : TopNContainer κ) : Finset κ := (keys dst.list ++ keys src.list).toFinset

def unionValue (dst src : TopNContainer κ) (k : κ) : Int := valueIn dst.list k + valueIn src.list k

/-- What a merge of `src` into `dst` leaves is a largest part of the union, unchanged. -/
structure LargestPart (dst src : TopNContainer κ) (kept : List (ListItem κ)) : Prop where
  length : kept.length = min dst.capacity (unionKeys dst src).card
  ordered : Ordered kept
  entries : ∀ item ∈ kept, item.key ∈ unionKeys dst src ∧
    item.value = unionValue dst src item.key
  largest : ∀ k ∈ unionKeys dst src, k ∉ keys kept → ∀ item ∈ kept,
    unionValue dst src k ≤ item.value

theorem keys_toFinset_addItems (dst src : TopNContainer κ) :
    (keys (addItems dst src.list).list).toFinset = unionKeys dst src := by
  ext k
  rw [unionKeys, List.mem_toFinset, List.mem_toFinset, List.mem_append, mem_keys_addItems]

section
variable {dst src : TopNContainer κ} (hdst : Ordered dst.list) (hsrc : Ordered src.list)
  (hfit : ∀ k, InInt (unionValue dst src k))
include hdst

theorem length_addItems : (addItems dst src.list).list.length = (unionKeys dst src).card := by
  have hnodup := (addItems_ordered hdst src.list).nodup
  rw [← keys_toFinset_addItems dst src, List.toFinset_card_of_nodup hnodup, keys, List.length_map]

include hsrc hfit

theorem value_of_mem_addItems {item : ListItem κ} (h : item ∈ (addItems dst src.list).list) :
    item.value = unionValue dst src item.key := by
  have hnodup := (addItems_ordered hdst src.list).nodup
  rw [← valueIn_of_mem hnodup h]
  exact valueIn_addItems hdst hsrc.nodup hfit item.key

/-- The first `capacity` entries of the union are kept, and what is left out has no larger
value than what is kept. -/
theorem merge_keeps_largest : LargestPart dst src (topnContMerge dst src).list := by
  have hlist : (topnContMerge dst src).list = (addItems dst src.list).list.take dst.capacity := by
    rw [topnContMerge, topnContPrepCapacity_eq, topnContMergeItems_list]
    rfl
  have hord := addItems_ordered hdst src.list
  have hsplit := List.take_append_drop dst.capacity (addItems dst src.list).list
  have hahead := hord.sorted
  rw [← hsplit, List.pairwise_append] at hahead
  rw [hlist]
  refine ⟨?_, hord.take _, ?_, ?_⟩
  · rw [List.length_take, length_addItems hdst]
  · intro item hitem
    have hmem := List.mem_of_mem_take hitem
    refine ⟨?_, value_of_mem_addItems hdst hsrc hfit hmem⟩
    rw [← keys_toFinset_addItems dst src, List.mem_toFinset]
    exact List.mem_map_of_mem hmem
  · intro k hk hleft item hitem
    rw [← keys_toFinset_addItems dst src, List.mem_toFinset] at hk
    obtain ⟨out, hout, rfl⟩ := List.mem_map.mp hk
    have hback : out ∈ (addItems dst src.list).list.drop dst.capacity := by
      rw [← hsplit] at hout
      exact (List.mem_append.mp hout).resolve_left fun h => hleft (List.mem_map_of_mem h)
    rw [← value_of_mem_addItems hdst hsrc hfit hout]
    exact hahead.2.2 item hitem out hback

end

theorem merge_keeps_largest_of_three :
    LargestPart (⟨[⟨0, 5⟩, ⟨1, -2⟩], 2⟩ : TopNContainer Nat) ⟨[⟨2, 4⟩, ⟨1, 3⟩], 7⟩
      (topnContMerge ⟨[⟨0, 5⟩, ⟨1, -2⟩], 2⟩ ⟨[⟨2, 4⟩, ⟨1, 3⟩], 7⟩).list := by
  refine merge_keeps_largest ⟨by decide, by decide⟩ ⟨by decide, by decide⟩ fun k => ?_
  by_cases hk : k ∈ [0, 1, 2]
  · exact (by decide : ∀ k ∈ [0, 1, 2],
      InInt (unionValue ⟨[⟨0, 5⟩, ⟨1, -2⟩], 2⟩ ⟨[⟨2, 4⟩, ⟨1, 3⟩], 7⟩ k)) k hk
  · simp only [List.mem_cons, List.not_mem_nil, or_false, not_or] at hk
    obtain ⟨h0, h1, h2⟩ := hk
    simp [unionValue, valueIn, InInt, Ne.symm h0, Ne.symm h1, Ne.symm h2]

end Homework.TopN
