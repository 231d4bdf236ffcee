import Mathlib.Data.Finset.Card
import Homework.TopN.Ledger

/-!
# Containers with room for every key

While a container has room for all keys ever added to it, nothing is cut off, so it holds
every key with its true total.
-/

namespace Homework.TopN

set_option autoImplicit false

universe u
variable {κ : Type u} [DecidableEq κ]

def distinctKeys (adds : Multiset (κ × Int)) : Finset κ := (adds.map Prod.fst).toFinset

theorem mem_distinctKeys {adds : Multiset (κ × Int)} {k : κ} :
    k ∈ distinctKeys adds ↔ ∃ a ∈ adds, a.1 = k := by simp [distinctKeys]

structure Fits (room : Nat) (adds : Multiset (κ × Int)) : Prop where
  nonneg : ∀ a ∈ adds, 0 ≤ a.2
  total_le : ∀ k, totalOf adds k ≤ intMax
  keys_le : (distinctKeys adds).card ≤ room

theorem Fits.part {room : Nat} {adds rest : Multiset (κ × Int)} (h : Fits room (adds + rest)) :
    Fits room adds := by
  have hadds : ∀ a ∈ adds, a ∈ adds + rest := fun a ha => Multiset.mem_add.mpr (Or.inl ha)
  have hrest : ∀ a ∈ rest, 0 ≤ a.2 := fun a ha => h.nonneg a (Multiset.mem_add.mpr (Or.inr ha))
  refine ⟨fun a ha => h.nonneg a (hadds a ha), fun k => ?_, ?_⟩
  · have htotal := h.total_le k
    have hpos := totalOf_nonneg hrest k
    rw [totalOf_add] at htotal
    omega
  · refine le_trans (Finset.card_le_card fun k hk => ?_) h.keys_le
    obtain ⟨a, ha, rfl⟩ := mem_distinctKeys.mp hk
    exact mem_distinctKeys.mpr ⟨a, hadds a ha, rfl⟩

theorem Accounts.length_le {cont : TopNContainer κ} {adds : Multiset (κ × Int)} {evicted : Set κ}
    (h : Accounts cont adds evicted) : cont.list.length ≤ (distinctKeys adds).card := by
  have hlen : (keys cont.list).toFinset.card = cont.list.length := by
    rw [List.toFinset_card_of_nodup h.ordered.nodup, keys, List.length_map]
  rw [← hlen]
  apply Finset.card_le_card
  intro k hk
  exact mem_distinctKeys.mpr (h.added k (List.mem_toFinset.mp hk))

omit [DecidableEq κ] in
theorem removedKeys_eq_empty {cont : TopNContainer κ} (h : cont.list.length ≤ cont.capacity) :
    removedKeys cont = ∅ := by
  rw [Set.eq_empty_iff_forall_notMem]
  intro k hk
  apply hk.2
  rw [topnContPrepCapacity_eq, List.take_of_length_le h]
  exact hk.1

/-- A container for `room` keys that has lost none of those in `adds`. -/
structure Complete (room : Nat) (cont : TopNContainer κ) (adds : Multiset (κ × Int)) : Prop where
  accounts : Accounts cont adds ∅
  capacity_eq : cont.capacity = room

namespace Complete
variable {room : Nat} {cont dst src : TopNContainer κ} {adds adds' : Multiset (κ × Int)}

theorem init {capacity : Int} (h : (capacity % 2 ^ 64).toNat = room) :
    Complete room (topnContInit (κ := κ) capacity) 0 :=
  ⟨Accounts.init capacity, h⟩

theorem add (h : Complete room cont adds) {key : κ} {value : Int}
    (hfits : Fits room ((key, value) ::ₘ adds)) :
    Complete room (topnContAdd cont key value) ((key, value) ::ₘ adds) := by
  have hvalue : 0 ≤ value := hfits.nonneg _ (Multiset.mem_cons_self _ _)
  have hfit : totalOf adds key + value ≤ intMax := by simpa using hfits.total_le key
  have hroom := (h.accounts.addItem hvalue hfit).length_le.trans hfits.keys_le
  have hadd := h.accounts.add hvalue hfit
  rw [removedKeys_eq_empty (by simpa [h.capacity_eq] using hroom), Set.union_empty] at hadd
  exact ⟨hadd, by simp [topnContAdd, h.capacity_eq]⟩

theorem merge (hd : Complete room dst adds) (hs : Complete room src adds')
    (hfits : Fits room (adds + adds')) :
    Complete room (topnContMerge dst src) (adds + adds') := by
  have hfit : ∀ k, totalOf adds k + totalOf adds' k ≤ intMax := by
    intro k
    simpa using hfits.total_le k
  have hitems := hd.accounts.mergeItems hs.accounts hfit
  have hroom := hitems.length_le.trans hfits.keys_le
  have hmerge := hd.accounts.merge hs.accounts hfit
  have hcapacity : (topnContMergeItems dst src).capacity = room := hd.capacity_eq
  rw [removedKeys_eq_empty (by rwa [hcapacity]), Set.union_empty, Set.union_empty] at hmerge
  exact ⟨hmerge, by rw [topnContMerge_capacity, hd.capacity_eq]⟩

end Complete

/-- The list is the map from the keys of `adds` to their totals, by falling value. -/
structure Tallies (list : List (ListItem κ)) (adds : Multiset (κ × Int)) : Prop where
  ordered : Ordered list
  mem_keys : ∀ k, k ∈ keys list ↔ ∃ a ∈ adds, a.1 = k
  value_eq : ∀ item ∈ list, item.value = totalOf adds item.key

theorem Complete.tallies {room : Nat} {cont : TopNContainer κ} {adds : Multiset (κ × Int)}
    (h : Complete room cont adds) : Tallies cont.list adds where
  ordered := h.accounts.ordered
  mem_keys k := by
    refine ⟨h.accounts.added k, ?_⟩
    rintro ⟨a, ha, rfl⟩
    exact h.accounts.kept a ha (Set.notMem_empty _)
  value_eq item hitem := by
    rw [← valueIn_of_mem h.accounts.ordered.nodup hitem]
    exact h.accounts.value_eq item.key (Set.notMem_empty _)

end Homework.TopN
