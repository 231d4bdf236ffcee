import Homework.TopN.Container

/-!
# Distinct keys, order and capacity

Adding an item re-establishes the order on both paths, whatever the value: an insertion
relies on the list being sorted, an update on nothing. Only the last loop looks at the
capacity, and it keeps a prefix.
-/

namespace Homework.TopN

set_option autoImplicit false

universe u v
variable {κ : Type u}

theorem notAfter_iff (a b : ListItem κ) : NotAfter a b ↔ b.value ≤ a.value := by
  unfold NotAfter topnValueCompare
  split
  · simpa
  · split <;> simp <;> omega

instance : Std.Total (NotAfter (κ := κ)) where
  total a b := by
    simp only [notAfter_iff]
    omega

instance : IsTrans (ListItem κ) NotAfter where
  trans a b c := by
    simp only [notAfter_iff]
    omega

def keys (l : List (ListItem κ)) : List κ := l.map ListItem.key

@[simp] theorem keys_nil : keys ([] : List (ListItem κ)) = [] := rfl

@[simp] theorem keys_cons (item : ListItem κ) (l : List (ListItem κ)) :
    keys (item :: l) = item.key :: keys l := rfl

/-- The list is a map from keys to values listed by falling value. -/
structure Ordered (l : List (ListItem κ)) : Prop where
  nodup : (keys l).Nodup
  sorted : l.Pairwise fun a b => b.value ≤ a.value

theorem pairwise_notAfter_iff (l : List (ListItem κ)) :
    l.Pairwise NotAfter ↔ l.Pairwise fun a b => b.value ≤ a.value :=
  ⟨fun h => h.imp fun hab => (notAfter_iff _ _).mp hab,
    fun h => h.imp fun hab => (notAfter_iff _ _).mpr hab⟩

theorem ordered_nil : Ordered ([] : List (ListItem κ)) := ⟨List.nodup_nil, List.Pairwise.nil⟩

theorem Ordered.take {l : List (ListItem κ)} (h : Ordered l) (n : Nat) : Ordered (l.take n) := by
  refine ⟨?_, h.sorted.take⟩
  rw [keys, List.map_take]
  exact h.nodup.take

theorem ordered_insertSorted {l : List (ListItem κ)} {item : ListItem κ} (h : Ordered l)
    (hnew : item.key ∉ keys l) : Ordered (gSListInsertSorted l item) := by
  refine ⟨?_, (pairwise_notAfter_iff _).mp
    (((pairwise_notAfter_iff l).mpr h.sorted).orderedInsert item l)⟩
  have hperm := (List.perm_orderedInsert NotAfter item l).map ListItem.key
  exact hperm.nodup_iff.mpr (List.nodup_cons.mpr ⟨hnew, h.nodup⟩)

theorem ordered_sort {l : List (ListItem κ)} (h : (keys l).Nodup) :
    Ordered (gSListSort l) := by
  refine ⟨?_, (pairwise_notAfter_iff _).mp (List.pairwise_insertionSort NotAfter l)⟩
  exact ((List.perm_insertionSort NotAfter l).map ListItem.key).nodup_iff.mpr h

variable [DecidableEq κ]

theorem addToItem_eq_none_iff (key : κ) (value : Int) (l : List (ListItem κ)) :
    addToItem key value l = none ↔ key ∉ keys l := by
  induction l with
  | nil => simp [addToItem]
  | cons item rest ih =>
    by_cases h : item.key = key
    · simp [addToItem, h]
    · simp only [addToItem, if_neg h, Option.map_eq_none_iff, ih, keys_cons, List.mem_cons,
        not_or]
      exact ⟨fun hrest => ⟨Ne.symm h, hrest⟩, And.right⟩

theorem keys_addToItem {key : κ} {value : Int} {l l' : List (ListItem κ)}
    (h : addToItem key value l = some l') : keys l' = keys l := by
  induction l generalizing l' with
  | nil => cases h
  | cons item rest ih =>
    unfold addToItem at h
    split at h
    · cases h
      rfl
    · obtain ⟨rest', hrest, rfl⟩ := Option.map_eq_some_iff.mp h
      simp [ih hrest]

theorem topnContAddItem_ordered {cont : TopNContainer κ} (h : Ordered cont.list) (key : κ)
    (value : Int) : Ordered (topnContAddItem cont key value).list := by
  unfold topnContAddItem
  split
  · rename_i hnone
    exact ordered_insertSorted h ((addToItem_eq_none_iff key value cont.list).mp hnone)
  · rename_i l hsome
    exact ordered_sort ((keys_addToItem hsome).symm ▸ h.nodup)

@[simp] theorem topnContAddItem_capacity (cont : TopNContainer κ) (key : κ) (value : Int) :
    (topnContAddItem cont key value).capacity = cont.capacity := by
  unfold topnContAddItem
  split <;> rfl

omit [DecidableEq κ] in
theorem topnContPrepCapacity_eq (cont : TopNContainer κ) :
    topnContPrepCapacity cont = { cont with list := cont.list.take cont.capacity } := by
  fun_induction topnContPrepCapacity cont with
  | case1 cont h ih =>
    rw [ih]
    have htake : (cont.list.eraseIdx cont.capacity).take cont.capacity =
        cont.list.take cont.capacity := by
      rw [List.eraseIdx_eq_take_drop_succ, List.take_left' (by rw [List.length_take]; omega)]
    simp only [htake]
  | case2 cont h => rw [List.take_of_length_le (by omega)]

omit [DecidableEq κ] in
theorem topnContPrepCapacity_ordered {cont : TopNContainer κ} (h : Ordered cont.list) :
    Ordered (topnContPrepCapacity cont).list := by
  rw [topnContPrepCapacity_eq]
  exact h.take cont.capacity

omit [DecidableEq κ] in
@[simp] theorem topnContPrepCapacity_capacity (cont : TopNContainer κ) :
    (topnContPrepCapacity cont).capacity = cont.capacity := by rw [topnContPrepCapacity_eq]

omit [DecidableEq κ] in
theorem topnContPrepCapacity_length (cont : TopNContainer κ) :
    (topnContPrepCapacity cont).list.length ≤ cont.capacity := by
  rw [topnContPrepCapacity_eq]
  exact List.length_take_le _ _

def addItems (dst : TopNContainer κ) (items : List (ListItem κ)) : TopNContainer κ :=
  items.foldl (fun d item => topnContAddItem d item.key item.value) dst

theorem addItems_ordered {dst : TopNContainer κ} (h : Ordered dst.list)
    (items : List (ListItem κ)) : Ordered (addItems dst items).list := by
  induction items generalizing dst with
  | nil => exact h
  | cons item items ih => exact ih (topnContAddItem_ordered h item.key item.value)

theorem topnContAddItem_with_capacity (cont : TopNContainer κ) (capacity : Nat) (key : κ)
    (value : Int) : topnContAddItem { cont with capacity } key value =
      { topnContAddItem cont key value with capacity } := by
  unfold topnContAddItem
  dsimp only
  split <;> rfl

theorem addItems_with_capacity (dst : TopNContainer κ) (capacity : Nat)
    (items : List (ListItem κ)) :
    addItems { dst with capacity } items = { addItems dst items with capacity } := by
  induction items generalizing dst with
  | nil => rfl
  | cons item items ih =>
    rw [addItems, List.foldl_cons, topnContAddItem_with_capacity, ← addItems, ih]
    rfl

theorem topnContMergeItems_list (dst src : TopNContainer κ) :
    (topnContMergeItems dst src).list = (addItems dst src.list).list := by
  have hraised := congrArg TopNContainer.list
    (addItems_with_capacity dst ((dst.capacity + src.capacity) % 2 ^ 64) src.list)
  exact hraised

theorem topnContMerge_ordered {dst src : TopNContainer κ} (h : Ordered dst.list) :
    Ordered (topnContMerge dst src).list := by
  apply topnContPrepCapacity_ordered
  rw [topnContMergeItems_list]
  exact addItems_ordered h src.list

@[simp] theorem topnContMerge_capacity (dst src : TopNContainer κ) :
    (topnContMerge dst src).capacity = dst.capacity := by simp [topnContMerge, topnContMergeItems]

structure WellFormed (capacity : Nat) (cont : TopNContainer κ) : Prop where
  ordered : Ordered cont.list
  length_le : cont.list.length ≤ capacity
  capacity_eq : cont.capacity = capacity

section Pool
variable {ι : Type v} [DecidableEq ι]

theorem step_wellFormed {size : ι → Nat} {pool : ι → TopNContainer κ}
    (h : ∀ i, WellFormed (size i) (pool i)) (call : Call ι κ) (i : ι) :
    WellFormed (size i) (step pool call i) := by
  cases call with
  | add j key value =>
    by_cases hij : i = j
    · subst j
      have hcap := (h i).capacity_eq
      have hord := topnContAddItem_ordered (h i).ordered key value
      simp only [step, Function.update_self]
      refine ⟨topnContPrepCapacity_ordered hord, ?_, ?_⟩
      · have hlen := topnContPrepCapacity_length (topnContAddItem (pool i) key value)
        rwa [topnContAddItem_capacity, hcap] at hlen
      · simpa [topnContAdd] using hcap
    · simpa only [step, Function.update_of_ne hij] using h i
  | merge dst src =>
    by_cases hij : i = dst
    · subst dst
      have hcap := (h i).capacity_eq
      simp only [step, Function.update_self]
      refine ⟨topnContMerge_ordered (h i).ordered, ?_, by simpa using hcap⟩
      have hlen := topnContPrepCapacity_length (topnContMergeItems (pool i) (pool src))
      have hback : (topnContMergeItems (pool i) (pool src)).capacity = size i := hcap
      rwa [hback] at hlen
    · simpa only [step, Function.update_of_ne hij] using h i

omit [DecidableEq κ] [DecidableEq ι] in
theorem initPool_wellFormed (capacity : ι → Int) (i : ι) :
    WellFormed (topnContInit (κ := κ) (capacity i)).capacity (initPool (κ := κ) capacity i) :=
  ⟨ordered_nil, Nat.zero_le _, rfl⟩

/-- After any calls on a pool every container lists distinct keys by non-increasing value
within its own, unchanged capacity, and a merge leaves its source as it was. -/
theorem pool_stays_well_formed (capacity : ι → Int) (calls : List (Call ι κ))
    (hcalls : ∀ call ∈ calls, call.Distinct) :
    (∀ i, WellFormed (topnContInit (κ := κ) (capacity i)).capacity
      (run step (initPool capacity) calls i)) ∧
    Along step (fun pool call => ∀ dst src, call = .merge dst src → step pool call src = pool src)
      (initPool (κ := κ) capacity) calls := by
  constructor
  · exact run_invariant_all
      (fun pool : ι → TopNContainer κ =>
        ∀ i, WellFormed (topnContInit (κ := κ) (capacity i)).capacity (pool i))
      (fun pool call h => step_wellFormed h call) (initPool_wellFormed capacity) calls
  · have hok : Along step (fun _ call => call.Distinct) (initPool capacity) calls :=
      Along.of_forall_mem hcalls
    refine hok.imp ?_
    rintro pool _ hne dst src rfl
    exact Function.update_of_ne (Ne.symm hne) _ _

theorem pool_stays_well_formed_merge :
    (∀ i, WellFormed (topnContInit (κ := Nat) (Bool.toNat i + 1)).capacity (run step
      (initPool fun i => Bool.toNat i + 1) [.add false 7 2, .add true 7 3, .merge false true] i)) ∧
    Along step (fun pool call => ∀ dst src, call = .merge dst src → step pool call src = pool src)
      (initPool (κ := Nat) fun i => Bool.toNat i + 1)
      [.add false 7 2, .add true 7 3, .merge false true] :=
  pool_stays_well_formed (fun i => Bool.toNat i + 1) _ (by simp [Call.Distinct])

end Pool
end Homework.TopN
