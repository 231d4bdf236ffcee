import Mathlib.Algebra.BigOperators.Group.Multiset.Basic
import Mathlib.Algebra.Order.BigOperators.Group.Multiset
import Homework.TopN.Values

/-!
# What a container owes to the values added to it

The ledger keeps, next to each container, all that was ever added to it, directly or
through a container merged into it, and the keys its capacity has ever cost it. A stored
value never exceeds the true total of its key, and only an eviction can make it smaller.
-/

namespace Homework.TopN

set_option autoImplicit false

universe u v
variable {κ : Type u} [DecidableEq κ]

def totalOf (adds : Multiset (κ × Int)) (k : κ) : Int :=
  ((adds.filter fun a => a.1 = k).map Prod.snd).sum

@[simp] theorem totalOf_zero (k : κ) : totalOf 0 k = 0 := rfl

@[simp] theorem totalOf_cons (a : κ × Int) (adds : Multiset (κ × Int)) (k : κ) :
    totalOf (a ::ₘ adds) k = totalOf adds k + if k = a.1 then a.2 else 0 := by
  unfold totalOf
  by_cases h : k = a.1
  · simp [Multiset.filter_cons_of_pos, h, Int.add_comm]
  · simp [Multiset.filter_cons_of_neg, h, Ne.symm h]

omit [DecidableEq κ] in
theorem coe_concat (adds : List (κ × Int)) (a : κ × Int) :
    (↑(adds ++ [a]) : Multiset (κ × Int)) = a ::ₘ ↑adds := by
  rw [Multiset.cons_coe]
  exact Multiset.coe_eq_coe.mpr (List.perm_append_singleton a adds)

@[simp] theorem totalOf_add (adds adds' : Multiset (κ × Int)) (k : κ) :
    totalOf (adds + adds') k = totalOf adds k + totalOf adds' k := by
  rw [totalOf, Multiset.filter_add, Multiset.map_add, Multiset.sum_add, totalOf, totalOf]

theorem totalOf_nonneg {adds : Multiset (κ × Int)} (h : ∀ a ∈ adds, 0 ≤ a.2) (k : κ) :
    0 ≤ totalOf adds k := by
  apply Multiset.sum_nonneg
  intro x hx
  obtain ⟨a, ha, rfl⟩ := Multiset.mem_map.mp hx
  exact h a (Multiset.mem_filter.mp ha).1

/-- The keys that `topn_cont_prep_capacity` removes from `cont`. -/
def removedKeys (cont : TopNContainer κ) : Set κ :=
  {k | k ∈ keys cont.list ∧ k ∉ keys (topnContPrepCapacity cont).list}

/-- The books of one container: what it stores, against everything in `adds`, given the
keys it has lost at some time. -/
structure Accounts (cont : TopNContainer κ) (adds : Multiset (κ × Int)) (evicted : Set κ) :
    Prop where
  ordered : Ordered cont.list
  nonneg : ∀ a ∈ adds, 0 ≤ a.2
  fits : ∀ k, totalOf adds k ≤ intMax
  added : ∀ k ∈ keys cont.list, ∃ a ∈ adds, a.1 = k
  value_nonneg : ∀ k, 0 ≤ valueIn cont.list k
  value_le : ∀ k, valueIn cont.list k ≤ totalOf adds k
  value_eq : ∀ k, k ∉ evicted → valueIn cont.list k = totalOf adds k
  kept : ∀ a ∈ adds, a.1 ∉ evicted → a.1 ∈ keys cont.list

namespace Accounts
variable {cont dst src : TopNContainer κ} {adds adds' : Multiset (κ × Int)}
  {evicted evicted' : Set κ}

theorem init (capacity : Int) : Accounts (topnContInit (κ := κ) capacity) 0 ∅ where
  ordered := ordered_nil
  nonneg := by simp
  fits := by simp [intMax]
  added := by simp [topnContInit]
  value_nonneg := by simp [topnContInit]
  value_le := by simp [topnContInit]
  value_eq := by simp [topnContInit]
  kept := by simp

theorem addItem (h : Accounts cont adds evicted) {key : κ} {value : Int} (hvalue : 0 ≤ value)
    (hfit : totalOf adds key + value ≤ intMax) :
    Accounts (topnContAddItem cont key value) ((key, value) ::ₘ adds) evicted := by
  have hle := h.value_le key
  have hpos := h.value_nonneg key
  have hval := valueIn_topnContAddItem h.ordered
    (inInt_of_le (x := valueIn cont.list key + value) (by omega) (by omega))
  refine ⟨topnContAddItem_ordered h.ordered key value, ?_, ?_, ?_, ?_, ?_, ?_, ?_⟩
  · intro a ha
    rcases Multiset.mem_cons.mp ha with rfl | ha
    · exact hvalue
    · exact h.nonneg a ha
  · intro k
    rw [totalOf_cons]
    have := h.fits k
    split
    · subst k; exact hfit
    · omega
  · intro k hk
    rcases (mem_keys_topnContAddItem cont key value k).mp hk with rfl | hk
    · exact ⟨_, Multiset.mem_cons_self _ _, rfl⟩
    · obtain ⟨a, ha, rfl⟩ := h.added k hk
      exact ⟨a, Multiset.mem_cons_of_mem ha, rfl⟩
  · intro k
    have := h.value_nonneg k
    rw [hval k]
    split <;> omega
  · intro k
    have := h.value_le k
    rw [hval k, totalOf_cons]
    exact Int.add_le_add_right this _
  · intro k hk
    rw [hval k, totalOf_cons, h.value_eq k hk]
  · intro a ha hev
    rw [mem_keys_topnContAddItem]
    rcases Multiset.mem_cons.mp ha with rfl | ha
    · exact Or.inl rfl
    · exact Or.inr (h.kept a ha hev)

theorem prep (h : Accounts cont adds evicted) :
    Accounts (topnContPrepCapacity cont) adds (evicted ∪ removedKeys cont) := by
  have hval : ∀ k, valueIn (topnContPrepCapacity cont).list k =
      if k ∈ keys (topnContPrepCapacity cont).list then valueIn cont.list k else 0 := by
    intro k
    rw [topnContPrepCapacity_eq]
    exact valueIn_take h.ordered.nodup cont.capacity k
  have hsub : ∀ k ∈ keys (topnContPrepCapacity cont).list, k ∈ keys cont.list := by
    intro k hk
    rw [topnContPrepCapacity_eq] at hk
    obtain ⟨item, hitem, rfl⟩ := List.mem_map.mp hk
    exact List.mem_map_of_mem (List.mem_of_mem_take hitem)
  refine ⟨topnContPrepCapacity_ordered h.ordered, h.nonneg, h.fits,
    fun k hk => h.added k (hsub k hk), ?_, ?_, ?_, ?_⟩
  · intro k
    have := h.value_nonneg k
    rw [hval k]
    split <;> omega
  · intro k
    have := h.value_le k
    have := h.value_nonneg k
    rw [hval k]
    split <;> omega
  · intro k hk
    rw [Set.mem_union, not_or] at hk
    rw [hval k, ← h.value_eq k hk.1]
    split
    · rfl
    · rename_i hnot
      have habsent : k ∉ keys cont.list := fun hmem => hk.2 ⟨hmem, hnot⟩
      rw [valueIn_of_not_mem habsent]
  · intro a ha hev
    rw [Set.mem_union, not_or] at hev
    by_contra hnot
    exact hev.2 ⟨h.kept a ha hev.1, hnot⟩

theorem add (h : Accounts cont adds evicted) {key : κ} {value : Int} (hvalue : 0 ≤ value)
    (hfit : totalOf adds key + value ≤ intMax) :
    Accounts (topnContAdd cont key value) ((key, value) ::ₘ adds)
      (evicted ∪ removedKeys (topnContAddItem cont key value)) :=
  (h.addItem hvalue hfit).prep

theorem mergeItems (hd : Accounts dst adds evicted) (hs : Accounts src adds' evicted')
    (hfit : ∀ k, totalOf adds k + totalOf adds' k ≤ intMax) :
    Accounts (topnContMergeItems dst src) (adds + adds') (evicted ∪ evicted') := by
  have hsum : ∀ k, InInt (valueIn dst.list k + valueIn src.list k) := by
    intro k
    have := hd.value_nonneg k
    have := hs.value_nonneg k
    have := hd.value_le k
    have := hs.value_le k
    have := hfit k
    exact inInt_of_le (by omega) (by omega)
  have hval : ∀ k, valueIn (topnContMergeItems dst src).list k =
      valueIn dst.list k + valueIn src.list k := by
    intro k
    rw [topnContMergeItems_list]
    exact valueIn_addItems hd.ordered hs.ordered.nodup hsum k
  have hkeys : ∀ k, k ∈ keys (topnContMergeItems dst src).list ↔
      k ∈ keys dst.list ∨ k ∈ keys src.list := by
    intro k
    rw [topnContMergeItems_list]
    exact mem_keys_addItems _ src.list k
  refine ⟨?_, ?_, fun k => ?_, ?_, fun k => ?_, fun k => ?_, ?_, ?_⟩
  · rw [topnContMergeItems_list]
    exact addItems_ordered hd.ordered src.list
  · intro a ha
    exact (Multiset.mem_add.mp ha).elim (hd.nonneg a) (hs.nonneg a)
  · rw [totalOf_add]
    exact hfit k
  · intro k hk
    rcases (hkeys k).mp hk with hk | hk
    · obtain ⟨a, ha, rfl⟩ := hd.added k hk
      exact ⟨a, Multiset.mem_add.mpr (Or.inl ha), rfl⟩
    · obtain ⟨a, ha, rfl⟩ := hs.added k hk
      exact ⟨a, Multiset.mem_add.mpr (Or.inr ha), rfl⟩
  · rw [hval k]
    exact Int.add_nonneg (hd.value_nonneg k) (hs.value_nonneg k)
  · rw [hval k, totalOf_add]
    exact Int.add_le_add (hd.value_le k) (hs.value_le k)
  · intro k hk
    rw [Set.mem_union, not_or] at hk
    rw [hval k, totalOf_add, hd.value_eq k hk.1, hs.value_eq k hk.2]
  · intro a ha hev
    rw [Set.mem_union, not_or] at hev
    rw [hkeys]
    exact (Multiset.mem_add.mp ha).imp (fun ha => hd.kept a ha hev.1) (fun ha => hs.kept a ha hev.2)

theorem merge (hd : Accounts dst adds evicted) (hs : Accounts src adds' evicted')
    (hfit : ∀ k, totalOf adds k + totalOf adds' k ≤ intMax) :
    Accounts (topnContMerge dst src) (adds + adds')
      (evicted ∪ evicted' ∪ removedKeys (topnContMergeItems dst src)) :=
  (hd.mergeItems hs hfit).prep

end Accounts

/-! ## The ledger of a pool -/

section Pool
variable {ι : Type v} [DecidableEq ι]

/-- For each container the values added to it, the keys removed from it, both directly or
through a container merged into it, and whether it has been the source of a merge. -/
structure Ledger (ι : Type v) (κ : Type u) where
  pool : ι → TopNContainer κ
  adds : ι → Multiset (κ × Int)
  evicted : ι → Set κ
  merged : ι → Bool

namespace Ledger

def init (capacity : ι → Int) : Ledger ι κ where
  pool := initPool capacity
  adds := fun _ => 0
  evicted := fun _ => ∅
  merged := fun _ => false

def step (l : Ledger ι κ) (call : Call ι κ) : Ledger ι κ :=
  match call with
  | .add i key value =>
    { pool := TopN.step l.pool call
      adds := Function.update l.adds i ((key, value) ::ₘ l.adds i)
      evicted := Function.update l.evicted i
        (l.evicted i ∪ removedKeys (topnContAddItem (l.pool i) key value))
      merged := l.merged }
  | .merge dst src =>
    { pool := TopN.step l.pool call
      adds := Function.update l.adds dst (l.adds dst + l.adds src)
      evicted := Function.update l.evicted dst (l.evicted dst ∪ l.evicted src ∪
        removedKeys (topnContMergeItems (l.pool dst) (l.pool src)))
      merged := Function.update l.merged src true }

/-- A call as the program makes it: values are not negative, no total passes the `gint`
maximum, and a container that has been merged into another is not used again. -/
def Ok (l : Ledger ι κ) : Call ι κ → Prop
  | .add i key value =>
    l.merged i = false ∧ 0 ≤ value ∧ totalOf (l.adds i) key + value ≤ intMax
  | .merge dst src => dst ≠ src ∧ l.merged dst = false ∧ l.merged src = false ∧
    ∀ k, totalOf (l.adds dst) k + totalOf (l.adds src) k ≤ intMax

theorem step_accounts (l : Ledger ι κ) (call : Call ι κ)
    (h : ∀ i, Accounts (l.pool i) (l.adds i) (l.evicted i)) (hok : l.Ok call) (i : ι) :
    Accounts ((l.step call).pool i) ((l.step call).adds i) ((l.step call).evicted i) := by
  cases call with
  | add j key value =>
    obtain ⟨-, hvalue, hfit⟩ := hok
    by_cases hij : i = j
    · subst j
      simpa only [step, TopN.step, Function.update_self] using (h i).add hvalue hfit
    · simpa only [step, TopN.step, Function.update_of_ne hij] using h i
  | merge dst src =>
    obtain ⟨-, -, -, hfit⟩ := hok
    by_cases hij : i = dst
    · subst dst
      simpa only [step, TopN.step, Function.update_self] using (h i).merge (h src) hfit
    · simpa only [step, TopN.step, Function.update_of_ne hij] using h i

theorem run_accounts (capacity : ι → Int) {calls : List (Call ι κ)}
    (hok : Along step Ok (init capacity) calls) (i : ι) :
    let l := run step (init capacity) calls
    Accounts (l.pool i) (l.adds i) (l.evicted i) :=
  run_invariant (fun l : Ledger ι κ => ∀ i, Accounts (l.pool i) (l.adds i) (l.evicted i))
    step_accounts (fun i => Accounts.init (capacity i)) hok i

theorem run_pool (capacity : ι → Int) (calls : List (Call ι κ)) :
    (run step (init capacity) calls).pool = run TopN.step (initPool capacity) calls := by
  suffices h : ∀ l : Ledger ι κ, (run step l calls).pool = run TopN.step l.pool calls from h _
  induction calls with
  | nil => exact fun _ => rfl
  | cons call calls ih =>
    intro l
    have hpool : (l.step call).pool = TopN.step l.pool call := by cases call <;> rfl
    rw [run_cons, run_cons, ih, hpool]

end Ledger

/-- Every stored value is at most the sum of what was added for its key, and equal to it
unless the key was once removed. -/
theorem stored_value_le_total (capacity : ι → Int) (calls : List (Call ι κ))
    (hok : Along Ledger.step Ledger.Ok (Ledger.init capacity) calls) :
    let l := run Ledger.step (Ledger.init capacity) calls
    ∀ i, ∀ item ∈ (run step (initPool capacity) calls i).list,
      item.value ≤ totalOf (l.adds i) item.key ∧
        (item.key ∉ l.evicted i → item.value = totalOf (l.adds i) item.key) := by
  intro l i item hitem
  have hacc := Ledger.run_accounts capacity hok i
  rw [← Ledger.run_pool] at hitem
  have hvalue := valueIn_of_mem hacc.ordered.nodup hitem
  exact ⟨hvalue ▸ hacc.value_le item.key, fun hev => hvalue ▸ hacc.value_eq item.key hev⟩

theorem stored_value_le_total_after_merge :
    let calls : List (Call Bool Bool) := [.add false true 2, .add true true 3, .merge false true]
    let l := run Ledger.step (Ledger.init fun _ => 1) calls
    ∀ i, ∀ item ∈ (run step (initPool fun _ => 1) calls i).list,
      item.value ≤ totalOf (l.adds i) item.key ∧
        (item.key ∉ l.evicted i → item.value = totalOf (l.adds i) item.key) :=
  stored_value_le_total (fun _ => 1) _
    ⟨⟨rfl, by decide, by decide⟩, ⟨rfl, by decide, by decide⟩,
      ⟨by decide, rfl, rfl, fun k => by cases k <;> decide⟩, trivial⟩

end Pool
end Homework.TopN
