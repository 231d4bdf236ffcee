import Mathlib.Data.Finset.Card
import Homework.TopN.Ledger

/-!
# When a container has the true top

The list is cut after every single call and an evicted key leaves nothing behind, so a key
that comes back starts again from zero. What saves a key is to stay ahead all the time: a
key is removed only at a moment when at least `capacity` other keys have a running total
no smaller than its own.
-/

namespace Homework.TopN

set_option autoImplicit false

universe u
variable {κ : Type u} [DecidableEq κ]

def topnContAdds (capacity : Int) (adds : List (κ × Int)) : TopNContainer κ :=
  adds.foldl (fun cont a => topnContAdd cont a.1 a.2) (topnContInit capacity)

theorem topnContAdds_concat (capacity : Int) (adds : List (κ × Int)) (a : κ × Int) :
    topnContAdds capacity (adds ++ [a]) = topnContAdd (topnContAdds capacity adds) a.1 a.2 := by
  simp [topnContAdds]

@[simp] theorem topnContAdds_capacity (capacity : Int) (adds : List (κ × Int)) :
    (topnContAdds capacity adds).capacity = (capacity % 2 ^ 64).toNat := by
  induction adds using List.reverseRecOn with
  | nil => rfl
  | append_singleton adds a ih => simpa [topnContAdds_concat, topnContAdd] using ih

/-- The other keys whose total is not below that of `k`. -/
def rivals (adds : List (κ × Int)) (k : κ) : Finset κ :=
  (adds.map Prod.fst).toFinset.filter fun k' => k' ≠ k ∧ totalOf adds k ≤ totalOf adds k'

theorem mem_rivals {adds : List (κ × Int)} {k k' : κ} : k' ∈ rivals adds k ↔
    (∃ a ∈ adds, a.1 = k') ∧ k' ≠ k ∧ totalOf adds k ≤ totalOf adds k' := by
  simp [rivals]

theorem capacity_le_card_rivals {cont : TopNContainer κ} {adds : List (κ × Int)} {evicted : Set κ}
    (h : Accounts cont adds evicted) {k : κ} (hk : k ∈ removedKeys cont) (hev : k ∉ evicted) :
    cont.capacity ≤ (rivals adds k).card := by
  obtain ⟨hstored, hcut⟩ := hk
  rw [topnContPrepCapacity_eq] at hcut
  obtain ⟨item, hitem, rfl, hvalue⟩ := exists_item_of_mem_keys h.ordered.nodup hstored
  have hsplit := List.take_append_drop cont.capacity cont.list
  have hback : item ∈ cont.list.drop cont.capacity := by
    rw [← hsplit] at hitem
    exact (List.mem_append.mp hitem).resolve_left fun hfront => hcut (List.mem_map_of_mem hfront)
  have hlen : (cont.list.take cont.capacity).length = cont.capacity := by
    have := List.length_pos_of_mem hback
    rw [List.length_drop] at this
    rw [List.length_take]
    omega
  have hsorted := h.ordered.sorted
  rw [← hsplit] at hsorted
  have hahead := (List.pairwise_append.mp hsorted).2.2
  have hnodup : (keys (cont.list.take cont.capacity)).Nodup := (h.ordered.take _).nodup
  have hcard : (keys (cont.list.take cont.capacity)).toFinset.card = cont.capacity := by
    rw [List.toFinset_card_of_nodup hnodup, keys, List.length_map, hlen]
  rw [← hcard]
  apply Finset.card_le_card
  intro k' hk'
  obtain ⟨item', hitem', rfl⟩ := List.mem_map.mp (List.mem_toFinset.mp hk')
  have hmem' := List.mem_of_mem_take hitem'
  have hle := hahead item' hitem' item hback
  have hvalue' := valueIn_of_mem h.ordered.nodup hmem'
  have htotal := h.value_le item'.key
  refine mem_rivals.mpr ⟨by simpa using h.added _ (List.mem_map_of_mem hmem'), ?_, ?_⟩
  · intro heq
    exact hcut (heq ▸ List.mem_map_of_mem hitem')
  · rw [← h.value_eq item.key hev, ← hvalue]
    omega

/-- Each key that a fresh container has lost had `capacity` rivals after some of the calls. -/
theorem exists_accounts_topnContAdds (capacity : Int) (adds : List (κ × Int))
    (hnonneg : ∀ a ∈ adds, 0 ≤ a.2) (hfits : ∀ k : κ, totalOf adds k ≤ intMax) :
    ∃ evicted, Accounts (topnContAdds capacity adds) adds evicted ∧
      ∀ k ∈ evicted, ∃ done, done <+: adds ∧ k ∈ done.map Prod.fst ∧
        (topnContAdds (κ := κ) capacity []).capacity ≤ (rivals done k).card := by
  induction adds using List.reverseRecOn with
  | nil => exact ⟨∅, Accounts.init capacity, by simp⟩
  | append_singleton adds a ih =>
    have hvalue : 0 ≤ a.2 := hnonneg a (by simp)
    have hfit : ∀ k : κ, totalOf adds k + (if k = a.1 then a.2 else 0) ≤ intMax := by
      intro k
      have := hfits k
      rwa [coe_concat, totalOf_cons] at this
    have hprefix : ∀ k : κ, totalOf adds k ≤ intMax := by
      intro k
      have := hfit k
      split at this <;> omega
    obtain ⟨evicted, hacc, hlost⟩ := ih (fun b hb => hnonneg b (by simp [hb])) hprefix
    have hitem := hacc.addItem hvalue (by simpa using hfit a.1)
    have hadd := hacc.add hvalue (by simpa using hfit a.1)
    rw [Prod.mk.eta, ← coe_concat] at hitem hadd
    refine ⟨_, topnContAdds_concat capacity adds a ▸ hadd, ?_⟩
    intro k hk
    by_cases hev : k ∈ evicted
    · obtain ⟨done, hdone, hmem, hcard⟩ := hlost k hev
      exact ⟨done, hdone.trans (List.prefix_append adds [a]), hmem, hcard⟩
    · have hremoved := (Set.mem_union _ _ _).mp hk |>.resolve_left hev
      obtain ⟨b, hb, rfl⟩ := hitem.added k hremoved.1
      refine ⟨adds ++ [a], List.prefix_rfl, List.mem_map_of_mem (by simpa using hb), ?_⟩
      have hcard := capacity_le_card_rivals hitem hremoved hev
      simpa using hcard

/-- A key that, after every call from its first one on, is strictly ahead of all but at
most `capacity - 1` other keys is stored with its true total. -/
theorem leading_key_is_exact (capacity : Int) (hpos : 1 ≤ capacity) (hmax : capacity ≤ intMax)
    (adds : List (κ × Int)) (hnonneg : ∀ a ∈ adds, 0 ≤ a.2)
    (hfits : ∀ k : κ, totalOf adds k ≤ intMax) (k : κ) (hk : k ∈ adds.map Prod.fst)
    (hlead : ∀ done, done <+: adds → k ∈ done.map Prod.fst →
      ((rivals done k).card : Int) ≤ capacity - 1) :
    ∃ item ∈ (topnContAdds capacity adds).list, item.key = k ∧ item.value = totalOf adds k := by
  obtain ⟨evicted, hacc, hlost⟩ := exists_accounts_topnContAdds capacity adds hnonneg hfits
  have hev : k ∉ evicted := by
    intro hev
    obtain ⟨done, hdone, hmem, hcard⟩ := hlost k hev
    have := hlead done hdone hmem
    unfold intMax at hmax
    rw [topnContAdds_capacity, Int.emod_eq_of_lt (by omega) (by omega)] at hcard
    omega
  obtain ⟨a, ha, rfl⟩ := List.mem_map.mp hk
  have hstored := hacc.kept a (by simpa using ha) hev
  obtain ⟨item, hitem, hkey, hvalue⟩ := exists_item_of_mem_keys hacc.ordered.nodup hstored
  exact ⟨item, hitem, hkey, hvalue.trans (hacc.value_eq a.1 hev)⟩

theorem leading_key_is_exact_of_two :
    ∃ item ∈ (topnContAdds 1 [(true, 2), (false, 1)]).list,
      item.key = true ∧ item.value = totalOf ([(true, 2), (false, 1)] : List (Bool × Int)) true :=
  leading_key_is_exact 1 (by decide) (by decide) _ (by decide)
    (fun k => by cases k <;> decide) true (by decide)
    (fun done hdone => (by decide : ∀ done ∈ [(true, (2 : Int)), (false, 1)].inits,
      true ∈ done.map Prod.fst → ((rivals done true).card : Int) ≤ 1 - 1) done
        ((List.mem_inits _ _).mpr hdone))

/-- Being ahead at the end is not enough: the key `0` is cut off by `1`, comes back, and has
the larger total but not in the container. -/
theorem returning_key_is_not_exact :
    ¬ ∀ (capacity : Int) (adds : List (Nat × Int)), 1 ≤ capacity → capacity ≤ intMax →
      (∀ a ∈ adds, 0 ≤ a.2) → (∀ k : Nat, totalOf adds k ≤ intMax) →
      ∀ k ∈ adds.map Prod.fst, ((rivals adds k).card : Int) ≤ capacity - 1 →
        ∃ item ∈ (topnContAdds capacity adds).list,
          item.key = k ∧ item.value = totalOf adds k := by
  intro h
  have hfits : ∀ k : Nat, totalOf (([(0, 1), (1, 1), (0, 1)] : List (Nat × Int))) k ≤ intMax := by
    intro k
    by_cases h0 : k = 0
    · subst k; decide
    · by_cases h1 : k = 1
      · subst k; decide
      · simp [totalOf, intMax, Ne.symm h0, Ne.symm h1]
  obtain ⟨item, hitem, -, hvalue⟩ := h 1 [(0, 1), (1, 1), (0, 1)] (by decide) (by decide)
    (by decide) hfits 0 (by decide) (by decide)
  have hend : (topnContAdds 1 [((0 : Nat), (1 : Int)), (1, 1), (0, 1)]).list = [⟨0, 1⟩] := by
    simp only [topnContAdds, List.foldl, topnContAdd, topnContPrepCapacity_eq]
    decide
  rw [hend, List.mem_singleton] at hitem
  subst item
  exact absurd hvalue (by decide)

end Homework.TopN
