import Homework.TopN.Order

/-!
# The values a container holds

`valueIn l k` is the value stored for `k`, and 0 for a key that is not stored. Seen through
it, and as long as no sum leaves the `gint` range, adding an item is adding to one key,
merging is adding pointwise, and cutting to the capacity forgets the removed keys.
-/

namespace Homework.TopN

set_option autoImplicit false

universe u
variable {κ : Type u} [DecidableEq κ]

def valueIn : List (ListItem κ) → κ → Int
  | [], _ => 0
  | item :: rest, k => if item.key = k then item.value else valueIn rest k

@[simp] theorem valueIn_nil (k : κ) : valueIn [] k = 0 := rfl

theorem valueIn_of_not_mem {l : List (ListItem κ)} {k : κ} (h : k ∉ keys l) : valueIn l k = 0 := by
  induction l with
  | nil => rfl
  | cons item rest ih =>
    rw [keys_cons, List.mem_cons, not_or] at h
    rw [valueIn, if_neg (Ne.symm h.1), ih h.2]

theorem valueIn_of_mem {l : List (ListItem κ)} (hnodup : (keys l).Nodup) {item : ListItem κ}
    (h : item ∈ l) : valueIn l item.key = item.value := by
  induction l with
  | nil => cases h
  | cons head rest ih =>
    obtain ⟨hhead, hrest⟩ := List.nodup_cons.mp hnodup
    rcases List.mem_cons.mp h with rfl | h
    · simp [valueIn]
    · have hne : head.key ≠ item.key := fun heq => hhead (heq ▸ List.mem_map_of_mem h)
      rw [valueIn, if_neg hne, ih hrest h]

theorem exists_item_of_mem_keys {l : List (ListItem κ)} (hnodup : (keys l).Nodup) {k : κ}
    (h : k ∈ keys l) : ∃ item ∈ l, item.key = k ∧ item.value = valueIn l k := by
  obtain ⟨item, hitem, rfl⟩ := List.mem_map.mp h
  exact ⟨item, hitem, rfl, (valueIn_of_mem hnodup hitem).symm⟩

theorem valueIn_perm {l l' : List (ListItem κ)} (hnodup : (keys l).Nodup) (h : l.Perm l') (k : κ) :
    valueIn l k = valueIn l' k := by
  have hkeys : (keys l).Perm (keys l') := h.map _
  by_cases hk : k ∈ keys l
  · obtain ⟨item, hitem, rfl, hvalue⟩ := exists_item_of_mem_keys hnodup hk
    rw [← hvalue, valueIn_of_mem (hkeys.nodup_iff.mp hnodup) (h.mem_iff.mp hitem)]
  · rw [valueIn_of_not_mem hk, valueIn_of_not_mem fun hk' => hk (hkeys.mem_iff.mpr hk')]

theorem valueIn_addToItem {key : κ} {value : Int} {l l' : List (ListItem κ)}
    (h : addToItem key value l = some l') (k : κ) :
    valueIn l' k = if k = key then intAdd (valueIn l key) value else valueIn l k := by
  induction l generalizing l' with
  | nil => cases h
  | cons item rest ih =>
    unfold addToItem at h
    split at h
    · rename_i heq
      cases h
      by_cases hk : k = key
      · simp [valueIn, heq, hk]
      · simp [valueIn, heq, hk, Ne.symm hk]
    · rename_i hne
      obtain ⟨rest', hrest, rfl⟩ := Option.map_eq_some_iff.mp h
      have hrec := ih hrest
      by_cases hk : k = key
      · subst k
        simp [valueIn, hne, hrec]
      · simp [valueIn, hrec, hk]

theorem mem_keys_topnContAddItem (cont : TopNContainer κ) (key : κ) (value : Int) (k : κ) :
    k ∈ keys (topnContAddItem cont key value).list ↔ k = key ∨ k ∈ keys cont.list := by
  unfold topnContAddItem
  split
  · have hperm := (List.perm_orderedInsert NotAfter ⟨key, value⟩ cont.list).map ListItem.key
    exact hperm.mem_iff.trans List.mem_cons
  · rename_i l hsome
    have hkey : key ∈ keys cont.list := by
      by_contra hnot
      rw [(addToItem_eq_none_iff key value cont.list).mpr hnot] at hsome
      cases hsome
    have hperm : (keys (gSListSort l)).Perm (keys l) :=
      (List.perm_insertionSort NotAfter l).map ListItem.key
    rw [keys_addToItem hsome] at hperm
    refine hperm.mem_iff.trans ⟨Or.inr, ?_⟩
    rintro (rfl | h)
    · exact hkey
    · exact h

/-- A new key gets its value as it is, a known one by a sum that may wrap around. -/
theorem valueIn_topnContAddItem_wrapped {cont : TopNContainer κ} (h : Ordered cont.list) {key : κ}
    {value : Int} (hnew : key ∉ keys cont.list → InInt value) (k : κ) :
    valueIn (topnContAddItem cont key value).list k =
      if k = key then intAdd (valueIn cont.list key) value else valueIn cont.list k := by
  have hord := topnContAddItem_ordered h key value
  unfold topnContAddItem at hord ⊢
  split
  · rename_i hnone
    have hnot := (addToItem_eq_none_iff key value cont.list).mp hnone
    rw [hnone] at hord
    have hperm := List.perm_orderedInsert NotAfter ⟨key, value⟩ cont.list
    unfold gSListInsertSorted at hord ⊢
    rw [valueIn_perm hord.nodup hperm]
    by_cases hk : k = key
    · subst k
      have hfit : InInt (0 + value) := by
        rw [Int.zero_add]
        exact hnew hnot
      simp [valueIn, valueIn_of_not_mem hnot, intAdd_eq hfit]
    · simp [valueIn, hk, Ne.symm hk]
  · rename_i l hsome
    rw [hsome] at hord
    rw [valueIn_perm hord.nodup (List.perm_insertionSort NotAfter l), valueIn_addToItem hsome]

theorem valueIn_topnContAddItem {cont : TopNContainer κ} (h : Ordered cont.list) {key : κ}
    {value : Int} (hfit : InInt (valueIn cont.list key + value)) (k : κ) :
    valueIn (topnContAddItem cont key value).list k =
      valueIn cont.list k + if k = key then value else 0 := by
  have hnew : key ∉ keys cont.list → InInt value := by
    intro hnot
    rwa [valueIn_of_not_mem hnot, Int.zero_add] at hfit
  rw [valueIn_topnContAddItem_wrapped h hnew]
  by_cases hk : k = key
  · rw [if_pos hk, if_pos hk, hk, intAdd_eq hfit]
  · rw [if_neg hk, if_neg hk, Int.add_zero]

theorem mem_keys_addItems (dst : TopNContainer κ) (items : List (ListItem κ)) (k : κ) :
    k ∈ keys (addItems dst items).list ↔ k ∈ keys dst.list ∨ k ∈ keys items := by
  induction items generalizing dst with
  | nil => simp [addItems]
  | cons item items ih =>
    have hrec := ih (topnContAddItem dst item.key item.value)
    rw [addItems, List.foldl_cons, ← addItems, hrec, mem_keys_topnContAddItem, keys_cons,
      List.mem_cons]
    tauto

theorem valueIn_addItems {dst : TopNContainer κ} (h : Ordered dst.list) {items : List (ListItem κ)}
    (hnodup : (keys items).Nodup) (hfit : ∀ k, InInt (valueIn dst.list k + valueIn items k))
    (k : κ) : valueIn (addItems dst items).list k = valueIn dst.list k + valueIn items k := by
  induction items generalizing dst with
  | nil => simp [addItems]
  | cons item items ih =>
    obtain ⟨hnew, hrest⟩ := List.nodup_cons.mp hnodup
    have hhead : InInt (valueIn dst.list item.key + item.value) := by
      simpa [valueIn] using hfit item.key
    have hvalue := valueIn_topnContAddItem h hhead
    -- `item.key` does not occur again, so each key gets its summand once
    have hsplit : ∀ k, valueIn (topnContAddItem dst item.key item.value).list k + valueIn items k =
        valueIn dst.list k + valueIn (item :: items) k := by
      intro k
      rw [hvalue k, valueIn]
      by_cases hk : k = item.key
      · subst k
        simp [valueIn_of_not_mem hnew]
      · simp [hk, Ne.symm hk]
    have hrec := ih (topnContAddItem_ordered h item.key item.value) hrest
      (fun k => (hsplit k).symm ▸ hfit k)
    rw [addItems, List.foldl_cons, ← addItems, hrec, hsplit]

theorem valueIn_take {l : List (ListItem κ)} (hnodup : (keys l).Nodup) (n : Nat) (k : κ) :
    valueIn (l.take n) k = if k ∈ keys (l.take n) then valueIn l k else 0 := by
  split
  · rename_i hk
    have htake : (keys (l.take n)).Nodup := by
      rw [keys, List.map_take]
      exact hnodup.take
    obtain ⟨item, hitem, rfl, hvalue⟩ := exists_item_of_mem_keys htake hk
    rw [← hvalue, valueIn_of_mem hnodup (List.mem_of_mem_take hitem)]
  · rename_i hk
    exact valueIn_of_not_mem hk

end Homework.TopN
