import Homework.TopN.Exactness

/-!
# Sums that leave the `gint` range

`item->value += value` wraps around. A container that has lost no key has for each of them
its total, taken as an `int`.
-/

namespace Homework.TopN

set_option autoImplicit false

universe u
variable {κ : Type u} [DecidableEq κ]

/-- After each of the calls, every key so far is in the list. -/
def NoneEvicted (capacity : Int) (adds : List (κ × Int)) : Prop :=
  ∀ done, done <+: adds → ∀ a ∈ done, a.1 ∈ keys (topnContAdds capacity done).list

theorem NoneEvicted.of_prefix {capacity : Int} {adds done : List (κ × Int)}
    (h : NoneEvicted capacity adds) (hdone : done <+: adds) : NoneEvicted capacity done :=
  fun part hpart => h part (hpart.trans hdone)

theorem topnContAdds_ordered (capacity : Int) (adds : List (κ × Int)) :
    Ordered (topnContAdds capacity adds).list := by
  induction adds using List.reverseRecOn with
  | nil => exact ordered_nil
  | append_singleton adds a ih =>
    rw [topnContAdds_concat]
    exact topnContPrepCapacity_ordered (topnContAddItem_ordered ih a.1 a.2)

theorem valueIn_topnContAdd_of_mem {cont : TopNContainer κ} (h : Ordered cont.list) {key : κ}
    {value : Int} (hvalue : InInt value) {k : κ}
    (hk : k ∈ keys (topnContAdd cont key value).list) :
    valueIn (topnContAdd cont key value).list k =
      if k = key then intAdd (valueIn cont.list key) value else valueIn cont.list k := by
  have hord := topnContAddItem_ordered h key value
  rw [topnContAdd, topnContPrepCapacity_eq] at hk ⊢
  rw [valueIn_take hord.nodup, if_pos hk]
  exact valueIn_topnContAddItem_wrapped h (fun _ => hvalue) k

theorem totalOf_of_not_mem {adds : Multiset (κ × Int)} {k : κ} (h : ∀ a ∈ adds, a.1 ≠ k) :
    totalOf adds k = 0 := by
  rw [totalOf, Multiset.filter_eq_nil.mpr h]
  rfl

theorem valueIn_topnContAdds {capacity : Int} {adds : List (κ × Int)}
    (hvalues : ∀ a ∈ adds, InInt a.2) (hkept : NoneEvicted capacity adds) (k : κ) :
    valueIn (topnContAdds capacity adds).list k = intOf (totalOf adds k) := by
  induction adds using List.reverseRecOn with
  | nil => rfl
  | append_singleton adds a ih =>
    have hvalue := hvalues a (by simp)
    have hrec := ih (fun b hb => hvalues b (by simp [hb]))
      (hkept.of_prefix (List.prefix_append adds [a]))
    by_cases hk : k ∈ keys (topnContAdds capacity (adds ++ [a])).list
    · rw [topnContAdds_concat] at hk ⊢
      rw [valueIn_topnContAdd_of_mem (topnContAdds_ordered capacity adds) hvalue hk,
        coe_concat, totalOf_cons]
      split
      · rename_i heq
        rw [← heq, hrec, intAdd, intOf, intOf, Int.bmod_add_bmod]
      · rw [hrec, Int.add_zero]
    · have hnone : ∀ b ∈ (↑(adds ++ [a]) : Multiset (κ × Int)), b.1 ≠ k := by
        intro b hb heq
        exact hk (heq ▸ hkept _ List.prefix_rfl b hb)
      rw [valueIn_of_not_mem hk, totalOf_of_not_mem hnone]
      rfl

end Homework.TopN
