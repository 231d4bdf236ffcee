import Homework.Shared.SortedInsert
import Homework.TopN.Exactness

/-!
# Adding new keys only

As long as every call brings a new key, nothing is ever updated: each item is inserted once
and the list is cut. The container then holds what sorting all items once and cutting once
would give.
-/

namespace Homework.TopN

set_option autoImplicit false

universe u
variable {κ : Type u}

def itemsOf (adds : List (κ × Int)) : List (ListItem κ) := adds.map fun a => ⟨a.1, a.2⟩

/-- Of two items with the times of their calls, the first has the larger value, or the same
value and the later call. -/
def RanksBefore (a b : ListItem κ × Nat) : Prop :=
  b.1.value < a.1.value ∨ b.1.value = a.1.value ∧ b.2 < a.2

theorem ranksBefore_of_laterFirst {a b : ListItem κ × Nat} (h : LaterFirst NotAfter a b) :
    RanksBefore a b := by
  obtain ⟨hle, hlevel⟩ := h
  rw [notAfter_iff] at hle hlevel
  unfold RanksBefore
  by_cases heq : b.1.value = a.1.value
  · exact Or.inr ⟨heq, hlevel (by omega)⟩
  · exact Or.inl (by omega)

theorem keys_insertAll (adds : List (κ × Int)) (k : κ) :
    k ∈ keys (insertAll NotAfter (itemsOf adds) []) ↔ k ∈ adds.map Prod.fst := by
  have hperm := (perm_insertAll NotAfter (itemsOf adds) []).map ListItem.key
  rw [keys, hperm.mem_iff, List.append_nil, itemsOf, List.map_map]
  exact Iff.rfl

variable [DecidableEq κ]

theorem list_topnContAdd_of_new {cont : TopNContainer κ} {key : κ} (hnew : key ∉ keys cont.list)
    (value : Int) : (topnContAdd cont key value).list =
      (cont.list.orderedInsert NotAfter ⟨key, value⟩).take cont.capacity := by
  have hnone := (addToItem_eq_none_iff key value cont.list).mpr hnew
  rw [topnContAdd, topnContPrepCapacity_eq, topnContAddItem_capacity, topnContAddItem, hnone]
  rfl

theorem list_topnContAdds (capacity : Int) (adds : List (κ × Int))
    (hdistinct : (adds.map Prod.fst).Nodup) : (topnContAdds capacity adds).list =
      (insertAll NotAfter (itemsOf adds) []).take (capacity % 2 ^ 64).toNat := by
  induction adds using List.reverseRecOn with
  | nil => exact List.take_nil.symm
  | append_singleton adds a ih =>
    rw [List.map_append, List.nodup_append] at hdistinct
    obtain ⟨hadds, -, hdisjoint⟩ := hdistinct
    have hlist := ih hadds
    have hnew : a.1 ∉ keys (topnContAdds capacity adds).list := by
      intro hmem
      rw [hlist, keys, List.map_take] at hmem
      have hold := (keys_insertAll adds a.1).mp (List.mem_of_mem_take hmem)
      exact hdisjoint a.1 hold a.1 (by simp) rfl
    have hitems : itemsOf (adds ++ [a]) = itemsOf adds ++ [⟨a.1, a.2⟩] := by simp [itemsOf]
    rw [topnContAdds_concat, list_topnContAdd_of_new hnew, hlist, topnContAdds_capacity,
      take_orderedInsert_take, hitems, insertAll_concat]

/-- After calls with distinct keys the container holds the first `capacity` of all items,
sorted by falling value and, where values are equal, the later call first. -/
theorem online_eq_offline (capacity : Int) (adds : List (κ × Int))
    (hdistinct : (adds.map Prod.fst).Nodup) :
    ∃ sorted : List (ListItem κ × Nat), sorted.Perm (itemsOf adds).zipIdx ∧
      sorted.Pairwise RanksBefore ∧ (topnContAdds capacity adds).list =
        (sorted.map Prod.fst).take (topnContInit (κ := κ) capacity).capacity := by
  obtain ⟨sorted, hperm, hsorted, hmap⟩ := exists_laterFirst (r := NotAfter) (itemsOf adds)
  refine ⟨sorted, hperm, hsorted.imp ranksBefore_of_laterFirst, ?_⟩
  rw [list_topnContAdds capacity adds hdistinct, hmap]
  rfl

theorem online_eq_offline_of_equal_values :
    ∃ sorted : List (ListItem Nat × Nat),
      sorted.Perm (itemsOf [(0, 5), (1, 5), (2, 7)]).zipIdx ∧ sorted.Pairwise RanksBefore ∧
        (topnContAdds 2 [(0, 5), (1, 5), (2, 7)]).list =
          (sorted.map Prod.fst).take (topnContInit (κ := Nat) 2).capacity :=
  online_eq_offline 2 [(0, 5), (1, 5), (2, 7)] (by decide)

end Homework.TopN
